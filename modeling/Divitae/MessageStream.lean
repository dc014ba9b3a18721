/-
# `MessageStream` — messages on their way from one node to another

`CNode` and `CNetMessage` of `net.cpp`, and `ProcessMessages` of `main.cpp`.  A message leaves in
the pieces that the socket takes, arrives in others, and is put together again:

    EndMessage        queues header and payload
    SocketSendData    sends from the front of the queue, and keeps the offset
    ReceiveMsgBytes   absorbs what has arrived, whatever it begins and ends with
    ProcessMessages   checks one complete message after the other, and hands one over

A message that is not complete is what its bytes make of it (`absorbed`), so it makes no
difference how the stream is cut.  The steps of the two nodes come in any order.
-/
import Divitae.Undo

namespace Divitae

/-- What the two nodes have in common; `MessageStartChars` has four elements. -/
structure Wire where
  C : Crypto
  pchMessageStart : List UInt8
  start_size : pchMessageStart.length = 4

namespace Wire

open Codec List

def COMMAND_SIZE : ℕ := 12

/-- Maximum length of incoming protocol messages (no message over 2 MiB is currently acceptable). -/
def MAX_PROTOCOL_MESSAGE_LENGTH : ℕ := 2 * 1024 * 1024

structure CMessageHeader where
  pchMessageStart : List UInt8
  pchCommand : List UInt8
  nMessageSize : ℕ
  nChecksum : ℕ

/-- The loop over the command in `IsValid`; a `char` above 0x7F is negative. -/
def commandValid : List UInt8 → Bool
  | [] => true
  -- Must be all zeros after the first zero
  | c :: rest =>
    if c = 0 then rest.all (· == 0) else 32 ≤ c.toNat && c.toNat ≤ 0x7E && commandValid rest

namespace CMessageHeader

variable (hdr : CMessageHeader)

def ser : List UInt8 :=
  hdr.pchMessageStart ++ (hdr.pchCommand ++ (leBytes 4 hdr.nMessageSize ++ leBytes 4 hdr.nChecksum))

def unserialize : Reader CMessageHeader :=
  bind (take 4) fun pchMessageStart => bind (take COMMAND_SIZE) fun pchCommand =>
    bind (readLE 4) fun nMessageSize => bind (readLE 4) fun nChecksum =>
      pure ⟨pchMessageStart, pchCommand, nMessageSize, nChecksum⟩

def GetCommand : List UInt8 := hdr.pchCommand.takeWhile (· != 0)

def IsValid (W : Wire) : Bool :=
  hdr.pchMessageStart == W.pchMessageStart && commandValid hdr.pchCommand &&
    hdr.nMessageSize ≤ MAX_SIZE

end CMessageHeader

variable (W : Wire)

/-- The first four bytes of the hash, as an `unsigned int`. -/
def checksum (data : List UInt8) : ℕ := (W.C.hash256 data).toNat % 2 ^ 32

abbrev Message := List UInt8 × List UInt8

/-- The header of a message; the command is cut off after twelve bytes. -/
def header (m : Message) : CMessageHeader where
  pchMessageStart := W.pchMessageStart
  pchCommand := m.1.take COMMAND_SIZE ++ replicate (COMMAND_SIZE - m.1.length) 0
  nMessageSize := m.2.length
  nChecksum := W.checksum m.2

/-- What `BeginMessage`, the data and `EndMessage` put together. -/
def EndMessage (m : Message) : List UInt8 := (W.header m).ser ++ m.2

structure Outbox where
  vSendMsg : List (List UInt8) := []
  nSendOffset : ℕ := 0
  nSendSize : ℕ := 0

def Outbox.push (o : Outbox) (data : List UInt8) : Outbox :=
  { o with vSendMsg := o.vSendMsg ++ [data], nSendSize := o.nSendSize + data.length }

/-- `SocketSendData`: what is sent, and what is left.  Each call of `send` has room for some
bytes, and there are no more calls than rooms. -/
def SocketSendData : List ℕ → Outbox → List UInt8 × Outbox
  | room :: rooms, ⟨data :: rest, nSendOffset, nSendSize⟩ =>
    let sent := (data.drop nSendOffset).take room
    -- couldn't send anything at all
    if sent.length = 0 then ([], ⟨data :: rest, nSendOffset, nSendSize⟩)
    else if nSendOffset + sent.length = data.length then
      let (out, o) := SocketSendData rooms ⟨rest, 0, nSendSize - data.length⟩
      (sent ++ out, o)
    -- could not send full message; stop sending more
    else (sent, ⟨data :: rest, nSendOffset + sent.length, nSendSize⟩)
  | _, o => ([], o)

/-! ## Receiving -/

/-- `hdrbuf` and `vRecv` are as long as `nHdrPos` and `nDataPos` say. -/
structure CNetMessage where
  in_data : Bool := false
  hdrbuf : List UInt8 := []
  hdr : CMessageHeader
  vRecv : List UInt8 := []

namespace CNetMessage

def new (W : Wire) : CNetMessage where
  hdr := ⟨W.pchMessageStart, replicate COMMAND_SIZE 0, 2 ^ 32 - 1, 0⟩

variable (msg : CNetMessage) (pch : List UInt8)

def complete : Bool := msg.in_data && msg.hdr.nMessageSize == msg.vRecv.length

/-- The message, and how many bytes it took. -/
def readHeader : Option (CNetMessage × ℕ) :=
  let nCopy := min (24 - msg.hdrbuf.length) pch.length
  let hdrbuf := msg.hdrbuf ++ pch.take nCopy
  if hdrbuf.length < 24 then some ({ msg with hdrbuf }, nCopy)
  else
    match CMessageHeader.unserialize hdrbuf with
    | none => none
    | some (hdr, _) =>
      -- reject messages larger than MAX_SIZE
      if MAX_SIZE < hdr.nMessageSize then none
      else some ({ msg with hdrbuf, hdr, in_data := true }, nCopy)

def readData : Option (CNetMessage × ℕ) :=
  let nCopy := min (msg.hdr.nMessageSize - msg.vRecv.length) pch.length
  some ({ msg with vRecv := msg.vRecv ++ pch.take nCopy }, nCopy)

end CNetMessage

/-- The current incomplete message, or a new one, behind the others. -/
def current (vRecvMsg : List CNetMessage) : List CNetMessage × CNetMessage :=
  match vRecvMsg.getLast? with
  | none => (vRecvMsg, .new W)
  | some msg => if msg.complete then (vRecvMsg, .new W) else (vRecvMsg.dropLast, msg)

/-- One round of `ReceiveMsgBytes`. -/
def receiveRound (vRecvMsg : List CNetMessage) (pch : List UInt8) :
    Option (List CNetMessage × List UInt8) :=
  let (before, msg) := W.current vRecvMsg
  match if msg.in_data then msg.readData pch else msg.readHeader pch with
  | none => none
  | some (msg, handled) =>
    if msg.in_data && MAX_PROTOCOL_MESSAGE_LENGTH < msg.hdr.nMessageSize then none
    else some (before ++ [msg], pch.drop handled)

/-- The loop; a round takes a byte or more. -/
def receiveLoop : ℕ → List CNetMessage → List UInt8 → Option (List CNetMessage)
  | _, vRecvMsg, [] => some vRecvMsg
  | 0, vRecvMsg, _ => some vRecvMsg
  | fuel + 1, vRecvMsg, pch =>
    match W.receiveRound vRecvMsg pch with
    | none => none
    | some (vRecvMsg, pch) => receiveLoop fuel vRecvMsg pch

/-- `none` where the connection is to be closed. -/
def ReceiveMsgBytes (vRecvMsg : List CNetMessage) (pch : List UInt8) : Option (List CNetMessage) :=
  W.receiveLoop pch.length vRecvMsg pch

/-- The loop of `ProcessMessages`: whether all is well, the message that `ProcessMessage` is
called with, and what stays in the queue. -/
def ProcessMessages : List CNetMessage → Bool × Option Message × List CNetMessage
  | [] => (true, none, [])
  | msg :: vRecvMsg =>
    -- end, if an incomplete message is found
    if !msg.complete then (true, none, msg :: vRecvMsg)
    else if msg.hdr.pchMessageStart != W.pchMessageStart then (false, none, vRecvMsg)
    else if !msg.hdr.IsValid W then ProcessMessages vRecvMsg
    else if W.checksum msg.vRecv != msg.hdr.nChecksum then ProcessMessages vRecvMsg
    else (true, some (msg.hdr.GetCommand, msg.vRecv), vRecvMsg)

structure Link where
  out : Outbox := {}
  /-- Sent, and not received. -/
  wire : List UInt8 := []
  vRecvMsg : List CNetMessage := []
  fDisconnect : Bool := false
  /-- What `ProcessMessage` has been called with. -/
  handed : List Message := []

inductive LinkEvent where
  /-- If the queue was empty, a `socketSendData` comes next. -/
  | pushMessage (m : Message)
  | socketSendData (rooms : List ℕ)
  | receiveMsgBytes (nBytes : ℕ)
  | processMessages

/-- A run ends where a node closes the connection for another reason. -/
def step (s : Link) : LinkEvent → Link
  | .pushMessage m => { s with out := s.out.push (W.EndMessage m) }
  | .socketSendData rooms =>
    let (sent, out) := SocketSendData rooms s.out
    { s with out, wire := s.wire ++ sent }
  | .receiveMsgBytes nBytes =>
    match W.ReceiveMsgBytes s.vRecvMsg (s.wire.take nBytes) with
    | none => { s with vRecvMsg := [], fDisconnect := true }
    | some vRecvMsg => { s with vRecvMsg, wire := s.wire.drop nBytes }
  | .processMessages =>
    let (fOk, m, vRecvMsg) := W.ProcessMessages s.vRecvMsg
    { s with vRecvMsg, handed := s.handed ++ m.toList, fDisconnect := s.fDisconnect || !fOk }

/-- What `SocketSendData` asserts, in front of each call of `send` and at its end. -/
structure Outbox.Sound (o : Outbox) : Prop where
  offset : ∀ data ∈ o.vSendMsg.head?, o.nSendOffset < data.length
  empty : o.vSendMsg = [] → o.nSendOffset = 0
  size : o.nSendSize = (o.vSendMsg.map length).sum
  filled : ∀ data ∈ o.vSendMsg, 0 < data.length

def Outbox.unsent (o : Outbox) : List UInt8 := o.vSendMsg.flatten.drop o.nSendOffset

section
variable {o : Outbox} {data : List UInt8}

theorem Outbox.Sound.push (h : o.Sound) (hdata : 0 < data.length) :
    (o.push data).Sound ∧ (o.push data).unsent = o.unsent ++ data := by
  obtain ⟨queue, nSendOffset, nSendSize⟩ := o
  obtain ⟨hoffset, hempty, hsize, hfilled⟩ := h
  have hfilled' : ∀ d ∈ queue ++ [data], 0 < d.length := forall_mem_append.mpr ⟨hfilled, by simpa⟩
  cases queue with
  | nil =>
    obtain rfl := hempty rfl
    exact ⟨⟨by simpa [Outbox.push], nofun, by simpa [Outbox.push] using hsize, hfilled'⟩,
      by simp [Outbox.push, Outbox.unsent]⟩
  | cons first rest =>
    have hfirst : nSendOffset < first.length := hoffset first rfl
    refine ⟨⟨hoffset, nofun, by simp_all [Outbox.push, Nat.add_assoc], hfilled'⟩, ?_⟩
    simp [Outbox.push, Outbox.unsent, drop_append_of_le_length (Nat.le_of_lt hfirst)]

/-- **No byte is lost or sent twice**, and the asserts hold. -/
theorem SocketSendData_spec (rooms : List ℕ) (h : o.Sound) :
    (SocketSendData rooms o).2.Sound ∧
      (SocketSendData rooms o).1 ++ (SocketSendData rooms o).2.unsent = o.unsent := by
  fun_induction SocketSendData rooms o with
  | case1 room rooms data rest nSendOffset nSendSize sent hsent => exact ⟨h, rfl⟩
  | case2 room rooms data rest nSendOffset nSendSize sent hsent hall out o' hrest ih =>
    have hoffset : nSendOffset < data.length := h.offset data rfl
    have hsize : nSendSize = data.length + (rest.map List.length).sum := h.size
    obtain ⟨hsound, hunsent⟩ := ih
      ⟨fun first hfirst => h.filled first (.tail _ (List.mem_of_mem_head? hfirst)), fun _ => rfl,
        by dsimp only; omega, fun d hd => h.filled d (.tail _ hd)⟩
    rw [hrest] at hsound hunsent
    have hwhole : sent = data.drop nSendOffset := by
      refine take_of_length_le ?_
      have hshort : sent.length ≤ room := length_take_le _ _
      rw [length_drop]
      omega
    refine ⟨hsound, ?_⟩
    dsimp only at hunsent ⊢
    rw [append_assoc, hunsent, hwhole]
    exact (drop_append_of_le_length (Nat.le_of_lt hoffset)).symm
  | case3 room rooms data rest nSendOffset nSendSize sent hsent hall =>
    have hoffset : nSendOffset < data.length := h.offset data rfl
    have hshort : sent.length ≤ data.length - nSendOffset := by
      rw [← length_drop]
      exact length_take_le' _ _
    refine ⟨⟨?_, nofun, h.size, h.filled⟩, ?_⟩
    · rintro first ⟨⟩
      dsimp only
      omega
    · show sent ++ (data ++ rest.flatten).drop (nSendOffset + sent.length) =
        (data ++ rest.flatten).drop nSendOffset
      rw [← drop_drop, drop_append_of_le_length (Nat.le_of_lt hoffset)]
      exact prefix_iff_eq_append.mp (( take_prefix room _).trans (prefix_append _ _))
  | case4 o => exact ⟨h, rfl⟩

end

/-! ## The receiver's messages -/

/-- A message as the node makes it: the command has at most twelve letters. -/
structure Sendable (m : Message) : Prop where
  command : m.1.length ≤ COMMAND_SIZE
  letters : ∀ c ∈ m.1, 32 ≤ c.toNat ∧ c.toNat ≤ 0x7E
  data : m.2.length ≤ MAX_PROTOCOL_MESSAGE_LENGTH

theorem commandValid_padded (n : ℕ) : ∀ {l : List UInt8},
    (∀ c ∈ l, 32 ≤ c.toNat ∧ c.toNat ≤ 0x7E) → commandValid (l ++ replicate n 0) = true
  | [], _ => by
    cases n with
    | zero => rfl
    | succ n => simp [replicate_succ, commandValid]
  | c :: l, h => by
    obtain ⟨hlow, hhigh⟩ := h c (.head _)
    have hne : c ≠ 0 := by
      rintro rfl
      exact absurd hlow (by decide)
    rw [cons_append, commandValid, if_neg hne,
      commandValid_padded n fun d hd => h d (.tail _ hd)]
    simp [hlow, hhigh]

/-- A message of which the bytes `p` have come. -/
def absorbed (p : List UInt8) : CNetMessage :=
  if p.length < 24 then { CNetMessage.new W with hdrbuf := p }
  else
    { in_data := true
      hdrbuf := p.take 24
      hdr := ((CMessageHeader.unserialize (p.take 24)).map Prod.fst).getD
        (CNetMessage.new W).hdr
      vRecv := p.drop 24 }

def arrived (m : Message) : CNetMessage := ⟨true, (W.header m).ser, W.header m, m.2⟩

/-- What `ReceiveMsgBytes` has in its queue: complete messages, and the one that is coming. -/
def received (waiting : List Message) (p : List UInt8) : List CNetMessage :=
  waiting.map W.arrived ++ if p = [] then [] else [W.absorbed p]

section
variable {W : Wire} {p pch : List UInt8} {m : Message}

theorem complete_arrived : (W.arrived m).complete = true := by
  simp [CNetMessage.complete, arrived, header]

theorem absorbed_short (hshort : p.length < 24) :
    W.absorbed p = { CNetMessage.new W with hdrbuf := p } := if_pos hshort

section
variable (h : Sendable m)
include h

theorem pchCommand_eq :
    (W.header m).pchCommand = m.1 ++ replicate (COMMAND_SIZE - m.1.length) 0 := by
  rw [header, take_of_length_le h.command]

theorem length_pchCommand : (W.header m).pchCommand.length = COMMAND_SIZE := by
  rw [pchCommand_eq h, length_append, length_replicate]
  exact Nat.add_sub_cancel' h.command

theorem GetCommand_header : (W.header m).GetCommand = m.1 := by
  have hletters : ∀ c ∈ m.1, (c != 0) = true := by
    intro c hc
    refine bne_iff_ne.mpr ?_
    rintro rfl
    exact absurd (h.letters 0 hc).1 (by decide)
  rw [CMessageHeader.GetCommand, pchCommand_eq h, takeWhile_append_of_pos hletters]
  cases COMMAND_SIZE - m.1.length with
  | zero => exact append_nil _
  | succ n => rw [replicate_succ, takeWhile_cons_of_neg (by decide), append_nil]

theorem isValid_header : (W.header m).IsValid W = true := by
  have hsize : m.2.length ≤ MAX_SIZE := Nat.le_trans h.data (by decide)
  rw [CMessageHeader.IsValid, pchCommand_eq h, commandValid_padded _ h.letters]
  simp [header, hsize]

theorem length_ser : (W.header m).ser.length = 24 := by
  simp only [CMessageHeader.ser, length_append, leBytes_length, length_pchCommand h]
  show W.pchMessageStart.length + (12 + (4 + 4)) = 24
  rw [W.start_size]

theorem length_EndMessage : (W.EndMessage m).length = 24 + m.2.length := by
  rw [EndMessage, length_append, length_ser h]

theorem unserialize_header :
    CMessageHeader.unserialize (W.header m).ser = some (W.header m, []) := by
  have hstart := Reads.take W.pchMessageStart
  rw [W.start_size] at hstart
  have hcommand := Reads.take (W.header m).pchCommand
  rw [length_pchCommand h] at hcommand
  have hdata := h.data
  rw [MAX_PROTOCOL_MESSAGE_LENGTH] at hdata
  have hsize : m.2.length < 256 ^ 4 := by omega
  have hsum : W.checksum m.2 < 256 ^ 4 := Nat.mod_lt _ (by decide)
  have hread : Reads CMessageHeader.unserialize (W.header m).ser (W.header m) :=
    hstart.bind (hcommand.bind ((reads_readLE hsize).bind
      ((reads_readLE hsum).map (Reads.pure _))))
  have hall := hread []
  rwa [append_nil] at hall

section
variable (hp : p <+: W.EndMessage m)
include hp

theorem take_header (hlong : 24 ≤ p.length) : p.take 24 = (W.header m).ser := by
  rw [prefix_iff_eq_take.mp hp, take_take, Nat.min_eq_left hlong, EndMessage,
    ← length_ser (W := W) h, take_left]

theorem absorbed_header (hlong : 24 ≤ p.length) :
    W.absorbed p = ⟨true, (W.header m).ser, W.header m, p.drop 24⟩ := by
  rw [absorbed, if_neg (Nat.not_lt.mpr hlong), take_header h hp hlong, unserialize_header h]
  rfl

theorem complete_iff : (W.absorbed p).complete = true ↔ p = W.EndMessage m := by
  have htotal := length_EndMessage (W := W) h
  rcases Nat.lt_or_ge p.length 24 with hshort | hlong
  · rw [absorbed_short hshort]
    refine ⟨nofun, ?_⟩
    rintro rfl
    omega
  · have hcomplete : (CNetMessage.complete ⟨true, (W.header m).ser, W.header m, p.drop 24⟩ =
        true) ↔ m.2.length = (p.drop 24).length := by simp [CNetMessage.complete, header]
    rw [absorbed_header h hp hlong, hcomplete, length_drop]
    refine ⟨fun heq => hp.eq_of_length (by omega), ?_⟩
    rintro rfl
    omega

omit hp in
theorem absorbed_EndMessage : W.absorbed (W.EndMessage m) = W.arrived m := by
  rw [absorbed_header h prefix_rfl (by rw [length_EndMessage h]; omega), EndMessage,
    ← length_ser (W := W) h, drop_left]
  rfl

theorem read_spec (hpart : p ≠ W.EndMessage m) (hpch : pch ≠ []) {more : List UInt8}
    (hstream : p ++ pch <+: W.EndMessage m ++ more) :
    ∃ k, 0 < k ∧ k ≤ pch.length ∧ p ++ pch.take k <+: W.EndMessage m ∧
      (if (W.absorbed p).in_data then (W.absorbed p).readData pch
        else (W.absorbed p).readHeader pch) = some (W.absorbed (p ++ pch.take k), k) := by
  have htotal := length_EndMessage (W := W) h
  have hcome : 0 < pch.length := length_pos_iff.mpr hpch
  have hprefix : ∀ k, p.length + k ≤ 24 + m.2.length → p ++ pch.take k <+: W.EndMessage m := by
    intro k hk
    refine prefix_of_prefix_length_le (((prefix_append_right_inj p).mpr ( take_prefix k pch)).trans
      hstream) (prefix_append _ _) ?_
    have := length_take_le k pch
    rw [length_append, htotal]
    omega
  have hmost := hp.length_le
  have hgrown : p.length ≠ 24 + m.2.length := fun heq => hpart (hp.eq_of_length (by omega))
  rcases Nat.lt_or_ge p.length 24 with hshort | hlong
  · have hnext := hprefix (min (24 - p.length) pch.length) (by omega)
    refine ⟨min (24 - p.length) pch.length, by omega, Nat.min_le_right _ _, hnext, ?_⟩
    rw [absorbed_short hshort, if_neg (by exact nofun), CNetMessage.readHeader]
    dsimp only
    split_ifs with hstill
    · rw [absorbed_short hstill]
    · -- the header is there
      have hfull := Nat.not_lt.mp hstill
      have hlen : (p ++ pch.take (min (24 - p.length) pch.length)).length ≤ 24 := by
        rw [length_append, length_take]
        omega
      have hwhole := take_header h hnext hfull
      rw [take_of_length_le hlen] at hwhole
      rw [absorbed_header h hnext hfull, drop_eq_nil_of_le hlen, hwhole,
        CNetMessage.new]
      dsimp only
      rw [unserialize_header h]
      exact if_neg (Nat.not_lt.mpr (Nat.le_trans h.data (by decide)))
  · have hnext := hprefix (min (m.2.length - (p.drop 24).length) pch.length)
      (by rw [length_drop]; omega)
    refine ⟨min (m.2.length - (p.drop 24).length) pch.length,
      by rw [length_drop]; omega, Nat.min_le_right _ _, hnext, ?_⟩
    rw [absorbed_header h hp hlong, if_pos rfl, CNetMessage.readData,
      absorbed_header h hnext (by rw [length_append]; omega), drop_append_of_le_length hlong]
    rfl

end

end

theorem receiveRound_spec (waiting : List Message) (h : Sendable m)
    (hp : p <+: W.EndMessage m) (hpart : p ≠ W.EndMessage m) (hpch : pch ≠ [])
    {more : List UInt8} (hstream : p ++ pch <+: W.EndMessage m ++ more) :
    ∃ k, 0 < k ∧ k ≤ pch.length ∧ p ++ pch.take k <+: W.EndMessage m ∧
      W.receiveRound (W.received waiting p) pch =
        some (waiting.map W.arrived ++ [W.absorbed (p ++ pch.take k)],
          pch.drop k) := by
  obtain ⟨k, hpos, hk, hnext, hread⟩ := read_spec h hp hpart hpch hstream
  refine ⟨k, hpos, hk, hnext, ?_⟩
  -- the message at the end of the queue is the one that is coming
  have hcurrent : W.current (W.received waiting p) =
      (waiting.map W.arrived, W.absorbed p) := by
    rw [current, received]
    by_cases hnil : p = []
    · subst hnil
      rw [if_pos rfl, append_nil]
      cases hlast : (waiting.map W.arrived).getLast? with
      | none => rfl
      | some msg =>
        obtain ⟨w, hw, rfl⟩ := mem_map.mp (mem_of_getLast? hlast)
        exact if_pos complete_arrived
    · rw [if_neg hnil, getLast?_concat, dropLast_concat]
      exact if_neg fun hcomplete => hpart ((complete_iff h hp).mp hcomplete)
  have hlimit : (W.absorbed (p ++ pch.take k)).in_data = true →
      (W.absorbed (p ++ pch.take k)).hdr.nMessageSize ≤ MAX_PROTOCOL_MESSAGE_LENGTH := by
    rcases Nat.lt_or_ge (p ++ pch.take k).length 24 with hshort | hlong
    · rw [absorbed_short hshort]
      exact nofun
    · rw [absorbed_header h hnext hlong]
      exact fun _ => h.data
  rw [receiveRound, hcurrent]
  dsimp only
  rw [hread]
  exact if_neg (by simpa using hlimit)

/-- The bytes are those of a message that has begun and is not complete, if there are any. -/
def Begun (p : List UInt8) : List Message → Prop
  | [] => p = []
  | m :: _ => p <+: W.EndMessage m ∧ p ≠ W.EndMessage m

theorem begun_nil {coming : List Message} (hcoming : ∀ w ∈ coming, Sendable w) :
    W.Begun [] coming := by
  cases coming with
  | nil => rfl
  | cons m coming =>
    refine ⟨ nil_prefix, fun heq => ?_⟩
    have hlen := congrArg length heq
    rw [length_EndMessage (hcoming m (.head _)), length_nil] at hlen
    omega

variable {waiting coming : List Message}

/-- **However the stream is cut**, the messages in it are put together one after the other. -/
theorem receiveLoop_spec {fuel : ℕ} {later : List UInt8}
    (hfuel : pch.length ≤ fuel) (hcoming : ∀ w ∈ coming, Sendable w) (hbegun : W.Begun p coming)
    (hstream : p ++ pch ++ later = (coming.map W.EndMessage).flatten) :
    ∃ done coming' p', coming = done ++ coming' ∧
      W.receiveLoop fuel (W.received waiting p) pch = some (W.received (waiting ++ done) p') ∧
      W.Begun p' coming' ∧ p' ++ later = (coming'.map W.EndMessage).flatten := by
  induction fuel generalizing p pch waiting coming with
  | zero =>
    obtain rfl := length_eq_zero_iff.mp (Nat.le_zero.mp hfuel)
    rw [append_nil] at hstream
    exact ⟨[], coming, p, rfl, by rw [receiveLoop, append_nil], hbegun, hstream⟩
  | succ fuel ih =>
    rcases eq_or_ne pch [] with rfl | hpch
    · rw [append_nil] at hstream
      exact ⟨[], coming, p, rfl, by rw [receiveLoop, append_nil], hbegun, hstream⟩
    cases coming with
    | nil => exact absurd (append_eq_nil_iff.mp (append_eq_nil_iff.mp hstream).1).2 hpch
    | cons m coming =>
      obtain ⟨hp, hpart⟩ := hbegun
      rw [map_cons, flatten_cons] at hstream
      obtain ⟨k, hpos, hk, hnext, hround⟩ := receiveRound_spec waiting (hcoming m (.head _)) hp
        hpart hpch (hstream ▸ prefix_append (p ++ pch) later)
      have hrest : (p ++ pch.take k) ++ pch.drop k ++ later = W.EndMessage m ++
          (coming.map W.EndMessage).flatten := by
        rw [append_assoc p, take_append_drop, hstream]
      have hless : (pch.drop k).length ≤ fuel := by
        rw [length_drop]
        omega
      rw [receiveLoop, hround]
      swap
      · exact hpch
      dsimp only
      by_cases hwhole : p ++ pch.take k = W.EndMessage m
      · -- the message is complete, and the next bytes are those of another one
        have hlater := fun w hw => hcoming w (.tail _ hw)
        rw [hwhole, append_assoc] at hrest
        obtain ⟨done, coming', p', rfl, hloop, hfinal⟩ := @ih _ _ (waiting ++ [m]) _ hless
          hlater (begun_nil hlater) (append_cancel_left hrest)
        refine ⟨m :: done, coming', p', rfl, ?_, hfinal⟩
        rw [received, if_pos rfl, append_nil, map_append, append_assoc] at hloop
        rw [hwhole, absorbed_EndMessage (hcoming m (.head _))]
        exact hloop
      · have hsome : p ++ pch.take k ≠ [] := by
          refine ne_nil_of_length_pos ?_
          rw [length_append, length_take]
          omega
        obtain ⟨done, coming', p', hsplit, hloop, hfinal⟩ := ih hless hcoming ⟨hnext, hwhole⟩ hrest
        refine ⟨done, coming', p', hsplit, ?_, hfinal⟩
        rw [received, if_neg hsome] at hloop
        exact hloop

/-- **A complete message is handed over as it was sent.** -/
theorem ProcessMessages_received
    (hwaiting : ∀ w ∈ waiting, Sendable w) (hcoming : ∀ w ∈ coming, Sendable w)
    (hbegun : W.Begun p coming) : W.ProcessMessages (W.received waiting p) =
      (true, waiting.head?, W.received waiting.tail p) := by
  cases waiting with
  | nil =>
    rcases eq_or_ne p [] with rfl | hnil
    · rfl
    cases coming with
    | nil => exact absurd hbegun hnil
    | cons m coming =>
      have hopen : (W.absorbed p).complete = false := Bool.eq_false_iff.mpr fun hcomplete =>
        hbegun.2 ((complete_iff (hcoming m (.head _)) hbegun.1).mp hcomplete)
      rw [received, map_nil, nil_append, if_neg hnil, ProcessMessages, hopen]
      exact congrArg (fun q => (true, none, q)) (if_neg hnil).symm
  | cons m waiting =>
    have hm := hwaiting m (.head _)
    rw [received, map_cons, cons_append, ProcessMessages, complete_arrived, if_neg (by decide),
      arrived, isValid_header hm, GetCommand_header hm]
    simp [header, received]

end

/-! ## Runs -/

def LinkEvent.Ok : LinkEvent → Prop
  | .pushMessage m => Sendable m
  | _ => True

def LinkEvent.pushed : LinkEvent → Option Message
  | .pushMessage m => some m
  | _ => none

/-- Each message has been handed over, or waits in the receiver's queue, or is coming. -/
def Delivers (past : List LinkEvent) (s : Link) : Prop :=
  s.out.Sound ∧ s.fDisconnect = false ∧ ∃ waiting coming p,
    past.filterMap LinkEvent.pushed = s.handed ++ (waiting ++ coming) ∧
    s.vRecvMsg = W.received waiting p ∧ (∀ w ∈ waiting ++ coming, Sendable w) ∧
    W.Begun p coming ∧ p ++ s.wire ++ s.out.unsent = (coming.map W.EndMessage).flatten

/-- **One step of either node.** -/
theorem Delivers.kept {past : List LinkEvent} {s : Link} (h : Delivers W past s) {e : LinkEvent}
    (he : e.Ok) : Delivers W (past ++ [e]) (W.step s e) := by
  obtain ⟨hsound, hopen, waiting, coming, p, hpushed, hqueue, hall, hbegun, hstream⟩ := h
  have hcoming : ∀ w ∈ coming, Sendable w := fun w hw => hall w (mem_append_right _ hw)
  rw [Delivers, filterMap_append, hpushed]
  cases e with
  | pushMessage m =>
    have hfilled : 0 < (W.EndMessage m).length := by
      rw [length_EndMessage he]
      omega
    obtain ⟨hsound', hunsent⟩ := hsound.push hfilled
    have hall' : ∀ w ∈ waiting ++ (coming ++ [m]), Sendable w := by
      rw [← append_assoc]
      exact forall_mem_append.mpr ⟨hall, fun w hw => mem_singleton.mp hw ▸ he⟩
    refine ⟨hsound', hopen, waiting, coming ++ [m], p, by simp [LinkEvent.pushed, step], hqueue,
      hall', ?_, ?_⟩
    · cases coming with
      | nil =>
        obtain rfl : p = [] := hbegun
        exact begun_nil fun w hw => hall' w (mem_append_right _ hw)
      | cons => exact hbegun
    · show p ++ s.wire ++ (s.out.push _).unsent = _
      rw [hunsent, ← append_assoc, hstream, map_append, flatten_append]
      simp
  | socketSendData rooms =>
    obtain ⟨hsound', hunsent⟩ := SocketSendData_spec rooms hsound
    refine ⟨hsound', hopen, waiting, coming, p, append_nil _, hqueue, hall, hbegun, ?_⟩
    show p ++ (s.wire ++ (SocketSendData rooms s.out).1) ++
      (SocketSendData rooms s.out).2.unsent = _
    rw [← append_assoc p, append_assoc, hunsent, hstream]
  | receiveMsgBytes nBytes =>
    have hcut : p ++ s.wire.take nBytes ++ (s.wire.drop nBytes ++ s.out.unsent) =
        (coming.map W.EndMessage).flatten := by
      rw [← hstream, ← append_assoc, append_assoc p, take_append_drop]
    obtain ⟨done, coming', p', rfl, hloop, hbegun', hlater⟩ :=
      @receiveLoop_spec W _ _ waiting _ _ _ (Nat.le_refl _) hcoming hbegun hcut
    rw [← append_assoc waiting] at hall
    rw [step, ReceiveMsgBytes, hqueue, hloop]
    exact ⟨hsound, hopen, waiting ++ done, coming', p', by simp [LinkEvent.pushed], rfl, hall,
      hbegun', by rw [append_assoc, hlater]⟩
  | processMessages =>
    rw [step, hqueue,
      ProcessMessages_received (fun w hw => hall w (mem_append_left _ hw)) hcoming hbegun]
    refine ⟨hsound, by rw [hopen]; rfl, waiting.tail, coming, p, ?_, rfl, ?_, hbegun, hstream⟩
    · cases waiting with
      | nil => simp [LinkEvent.pushed]
      | cons m waiting => simp [LinkEvent.pushed]
    · exact fun w hw => hall w (mem_append.mpr ((mem_append.mp hw).imp_left mem_of_mem_tail))

/-- **Messages arrive as they were sent.**  Whatever the two nodes do next, and however the socket
cuts the stream: what has been handed over is the first of what was pushed, in its order and
unaltered; the receiver finds nothing to close the connection for; when the queues are empty all
has been handed over; and no assert of the sender fails. -/
theorem messages_arrive (W : Wire) {es : List LinkEvent} (hes : ∀ e ∈ es, e.Ok) :
    let s := es.foldl W.step {}
    s.handed <+: es.filterMap LinkEvent.pushed ∧ s.out.Sound ∧ s.fDisconnect = false ∧
      (s.out.vSendMsg = [] → s.wire = [] → s.vRecvMsg = [] →
        s.handed = es.filterMap LinkEvent.pushed) := by
  have hinit : Delivers W [] {} :=
    ⟨⟨nofun, fun _ => rfl, rfl, nofun⟩, rfl, [], [], [], rfl, rfl, nofun, rfl, rfl⟩
  obtain ⟨hsound, hopen, waiting, coming, p, hpushed, hqueue, hall, -, hstream⟩ :=
    Run.run_hist_inv (I := Delivers W) (fun _ _ _ h he => h.kept W he) hinit
      (Run.guarded_of_forall hes)
  rw [nil_append] at hpushed
  intro s
  rw [hpushed]
  refine ⟨prefix_append _ _, hsound, hopen, ?_⟩
  intro hout hwire hempty
  rw [hqueue, received, append_eq_nil_iff, map_eq_nil_iff] at hempty
  obtain ⟨rfl, hpart⟩ := hempty
  have hnil : p = [] := by
    by_contra hne
    rw [if_neg hne] at hpart
    cases hpart
  rw [hnil, hwire, Outbox.unsent, hout] at hstream
  cases coming with
  | nil => exact (append_nil _).symm
  | cons m coming =>
    have hlen := length_EndMessage (W := W) (hall m (.head _))
    rw [map_cons, flatten_cons, flatten_nil, drop_nil, append_nil,
      append_nil] at hstream
    rw [(append_eq_nil_iff.mp hstream.symm).1, length_nil] at hlen
    omega

def mainWire : Wire where
  C := Crypto.onTexts CPubKey.invalid []
  pchMessageStart := [0x03, 0xc4, 0xfd, 0x13]
  start_size := rfl

def ping : Message := ([112, 105, 110, 103], [1, 2, 3, 4, 5, 6, 7, 8])

def verack : Message := ([118, 101, 114, 97, 99, 107], [])

def inPieces : List LinkEvent :=
  [.pushMessage ping, .socketSendData [10], .receiveMsgBytes 7, .pushMessage verack,
    .socketSendData [100, 5], .receiveMsgBytes 30, .processMessages, .socketSendData [100],
    .receiveMsgBytes 100, .processMessages]

theorem inPieces_arrive : (inPieces.foldl mainWire.step {}).handed = [ping, verack] := by
  have hping : Sendable ping := ⟨by decide, by decide +kernel, by decide⟩
  have hverack : Sendable verack := ⟨by decide, by decide +kernel, by decide⟩
  have hok : ∀ e ∈ inPieces, e.Ok := by
    simp [inPieces, LinkEvent.Ok, hping, hverack]
  exact (messages_arrive mainWire hok).2.2.2 (by decide +kernel) (by decide +kernel)
    (isEmpty_iff.mp (by decide +kernel))

end Wire

end Divitae
