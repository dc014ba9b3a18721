/-
# `StakeSpentRuns` — when the map knows the last blocks' spends

Four things hold of the node whatever it does, as long as no transaction id is used
twice (`Sound`): heights are consecutive, an entry of the map is a spend of a block of
the chain at its height, what is spent on the chain is not live in the coins, and no two
blocks spend the same output.  With them the map knows every spend of the last blocks
(`RemembersSpent`) after each step but three:

    two disconnections in a row    the second one brings a block back whose entries the
                                   tip before has deleted
    a disconnection that fails     after it has restored inputs
    a verification that stops      before it has connected again what it disconnected,
                                   or at start-up does not go back far enough
-/
import Divitae.Lib.Segment
import Divitae.LiveOutputs
import Divitae.Reorg

namespace Divitae

open Run Window List Option StakeSpent ChainEntry

/-! ## The map, one outpoint at a time -/

namespace StakeSpent

variable {m : StakeSpent} {out : COutPoint} {nHeight k : Int}

theorem foldl_insert (l : List COutPoint) (m : StakeSpent) :
    l.foldl (fun m o => m.insert o nHeight) m out =
      (m out).or (if out ∈ l then some nHeight else none) := by
  induction l generalizing m with
  | nil => exact (or_none).symm
  | cons o l ih =>
    rw [foldl_cons, ih]
    by_cases heq : out = o
    · rw [heq, if_pos mem_cons_self]
      show (if o = o then some ((m o).getD nHeight) else m o).or _ = _
      rw [if_pos rfl]
      cases m o with
      | none => rfl
      | some _ => rfl
    · show (if out = o then _ else m out).or _ = _
      rw [if_neg heq]
      by_cases hmem : out ∈ l
      · rw [if_pos hmem, if_pos (mem_cons_of_mem _ hmem)]
      · rw [if_neg hmem, if_neg (by simp [heq, hmem])]

theorem foldl_erase (l : List COutPoint) (m : StakeSpent) :
    l.foldl erase m out = if out ∈ l then none else m out := by
  induction l generalizing m with
  | nil => rfl
  | cons o l ih =>
    rw [foldl_cons, ih]
    show (if out ∈ l then none else if out = o then none else m out) = _
    by_cases heq : out = o
    · rw [if_pos heq, heq, if_pos mem_cons_self, ite_self]
    · rw [if_neg heq]
      by_cases hmem : out ∈ l
      · rw [if_pos hmem, if_pos (mem_cons_of_mem _ hmem)]
      · rw [if_neg hmem, if_neg (by simp [heq, hmem])]

variable {block : CBlock}

theorem connect_apply : m.connect block nHeight out =
    ((m out).or (if out ∈ block.spends then some nHeight else none)).filter fun nSpent =>
      !(nSpent < nHeight - MaxReorganizationDepth) := by
  unfold connect deleteOld
  rw [foldl_insert]

theorem of_connect (h : m.connect block nHeight out = some k) :
    m out = some k ∨ out ∈ block.spends ∧ k = nHeight := by
  rw [connect_apply] at h
  obtain ⟨hor, -⟩ := filter_eq_some_iff.mp h
  cases hm : m out with
  | some k' =>
    rw [hm, some_or] at hor
    exact .inl hor
  | none =>
    rw [hm, none_or] at hor
    split at hor
    next hmem => exact .inr ⟨hmem, (some.inj hor).symm⟩
    · cases hor

theorem connect_of_some (h : m out = some k) (hk : nHeight - MaxReorganizationDepth ≤ k) :
    m.connect block nHeight out = some k := by
  rw [connect_apply, h, some_or]
  exact filter_eq_some_iff.mpr ⟨rfl, by simpa using hk⟩

theorem connect_of_none (h : m out = none) (hmem : out ∈ block.spends) :
    m.connect block nHeight out = some nHeight := by
  rw [connect_apply, h, none_or, if_pos hmem]
  refine filter_eq_some_iff.mpr ⟨rfl, ?_⟩
  have hdepth : (0 : Int) ≤ MaxReorganizationDepth := Int.natCast_nonneg _
  simp only [Bool.not_eq_true', decide_eq_false_iff_not, not_lt]
  omega

theorem connect_none (h : m out = none) (hmem : out ∉ block.spends) :
    m.connect block nHeight out = none := by
  rw [connect_apply, h, none_or, if_neg hmem]
  rfl

end StakeSpent

/-! ## What the claim is about -/

/-- A block of the chain and its height. -/
abbrev HighBlock := CBlock × Int

def ChainEntry.key (entry : ChainEntry) : HighBlock := (entry.block, entry.pindex.nHeight)

namespace StakeChain

variable (s : StakeChain)

def blocks : List HighBlock := s.chainActive.map ChainEntry.key

/-- The last `MaxReorganizationDepth` blocks. -/
def window : List HighBlock := s.blocks.take MaxReorganizationDepth

/-- The map has every spend of the last blocks, and no outpoint nobody spends. -/
structure RemembersSpent : Prop where
  held : ∀ b ∈ s.window, ∀ out ∈ b.1.spends, s.mapStakeSpent out = some b.2
  only : ∀ out, s.mapStakeSpent out ≠ none → ∃ b ∈ s.blocks, out ∈ b.1.spends

/-- What holds whatever the node does. -/
structure Sound : Prop where
  heights : Numbered Prod.snd s.blocks
  entered : ∀ out k, s.mapStakeSpent out = some k → ∃ b ∈ s.blocks, out ∈ b.1.spends ∧ b.2 = k
  unspent : ∀ out, s.pcoinsTip.Live out → ∀ b ∈ s.blocks, out ∉ b.1.spends
  once : s.blocks.Pairwise fun a b => a.1.spends.Disjoint b.1.spends

variable {s}

theorem Sound.only (h : s.Sound) (out : COutPoint) (hne : s.mapStakeSpent out ≠ none) :
    ∃ b ∈ s.blocks, out ∈ b.1.spends := by
  obtain ⟨k, hk⟩ := ne_none_iff_exists'.mp hne
  obtain ⟨b, hb, hmem, -⟩ := h.entered out k hk
  exact ⟨b, hb, hmem⟩

theorem Sound.spender (h : s.Sound) {a b : HighBlock} {out : COutPoint} (ha : a ∈ s.blocks)
    (hb : b ∈ s.blocks) (hout : out ∈ a.1.spends) (hout' : out ∈ b.1.spends) : a = b := by
  by_contra hne
  have hsymm : Std.Symm fun a b : HighBlock => a.1.spends.Disjoint b.1.spends :=
    ⟨fun _ _ hd => hd.symm⟩
  exact h.once.forall ha hb hne hout hout'

theorem Sound.entry (h : s.Sound) {b : HighBlock} {out : COutPoint} (hb : b ∈ s.blocks)
    (hout : out ∈ b.1.spends) : s.mapStakeSpent out = none ∨ s.mapStakeSpent out = some b.2 := by
  cases hm : s.mapStakeSpent out with
  | none => exact .inl rfl
  | some k =>
    obtain ⟨a, ha, hmem, rfl⟩ := h.entered out k hm
    rw [h.spender ha hb hmem hout]
    exact .inr rfl

end StakeChain

/-! ## The conditions -/

/-- The ids of the block's transactions are used nowhere: they are apart, no coin of
theirs has outputs, and no block of the chain spends from them. -/
structure FreshIds (block : CBlock) (s : StakeChain) : Prop where
  ids : NewIds s.pcoinsTip block.vtx
  unspent : ∀ b ∈ s.blocks, ∀ out ∈ b.1.spends, out.hash ∉ block.vtx.map CTransaction.hash

section
variable (N : CDisconnectNode) (s : StakeChain)

/-- The tip can be disconnected. -/
def ComesOff (tip prev : ChainEntry) : Prop :=
  ∃ view, DisconnectBlock N tip.block tip.pindex prev.pindex s.pcoinsTip = .ok (view, true)

/-- A disconnection that costs the map nothing: it fails only before it has restored an
input, and the block that comes back into the last ones still has its entries. -/
structure CostsNothing (tip prev : ChainEntry) : Prop where
  early : ¬ ComesOff N s tip prev → erasedInputs N tip.block tip.pindex prev.pindex s.pcoinsTip = []
  kept : ComesOff N s tip prev → ∀ b, s.blocks[MaxReorganizationDepth]? = some b →
    ∀ out ∈ b.1.spends, s.mapStakeSpent out = some b.2

/-- A verification that goes back and forth: where it has lost a spend of the last
blocks, or never had it, it has disconnected the block and goes through to the end. -/
def FoundAgain (V : VerifyCall) : Prop :=
  ∀ b ∈ s.window, ∀ out ∈ b.1.spends, (wayBack N V s).1.mapStakeSpent out = none →
    (wayBack N V s).2 = none ∧ 4 ≤ V.nCheckLevel ∧ (VerifyDB N V s).2 = true ∧
      b.1.hash ≠ N.hashGenesisBlock ∧ b ∈ (wayBack N V s).1.undone.map ChainEntry.key

end

def KeepsSpent (s : StakeChain) : ChainEvent → Prop
  | .connectTip _ block _ _ => FreshIds block s
  | .disconnectTip N => ∀ tip prev rest, s.chainActive = tip :: prev :: rest →
    CostsNothing N s tip prev
  | .startUp N V => FoundAgain N s.loaded V
  | .verifyChain N V => FoundAgain N s V

/-! ## A block connected -/

section
variable {N : CDisconnectNode} {s : StakeChain}

theorem ConnectTip_effect (N : CDisconnectNode) (s : StakeChain) (block : CBlock)
    (pindexNew : CBlockIndex) (fAlreadyChecked : Bool) :
    ConnectTip N block pindexNew fAlreadyChecked s = s ∨
    ∃ tip rest c, s.chainActive = tip :: rest ∧ pindexNew.nHeight = tip.pindex.nHeight + 1 ∧
      block.hash ≠ N.hashGenesisBlock ∧
      ConnectBlock N.toCConnectNode block pindexNew tip.pindex s.pcoinsTip false fAlreadyChecked =
        .ok c ∧
      ConnectTip N block pindexNew fAlreadyChecked s =
        ⟨⟨block, c.pindex⟩ :: s.chainActive, c.view,
          s.mapStakeSpent.connect block pindexNew.nHeight⟩ := by
  unfold ConnectTip
  cases hchain : s.chainActive with
  | nil => exact .inl rfl
  | cons tip rest =>
    dsimp only
    by_cases hassert : pindexNew.nHeight ≠ tip.pindex.nHeight + 1 ∨ block.hash = N.hashGenesisBlock
    · exact .inl (if_pos hassert)
    · rw [if_neg hassert]
      obtain ⟨hheight, hgenesis⟩ := not_or.mp hassert
      unfold connectSpent
      cases hc : ConnectBlock N.toCConnectNode block pindexNew tip.pindex s.pcoinsTip false
        fAlreadyChecked with
      | error e => exact .inl rfl
      | ok c =>
        refine .inr ⟨tip, rest, c, rfl, not_not.mp hheight, hgenesis, hc, ?_⟩
        show StakeChain.mk _ _ (if block.hash = N.hashGenesisBlock then _ else _) = _
        rw [if_neg hgenesis]

variable {block : CBlock} {fAlreadyChecked : Bool}

theorem FreshIds.disjoint {pindexNew pprev : CBlockIndex}
    {c : Connected} (hfresh : FreshIds block s) (hs : s.Sound)
    (hgenesis : block.hash ≠ N.hashGenesisBlock)
    (hc : ConnectBlock N.toCConnectNode block pindexNew pprev s.pcoinsTip false fAlreadyChecked =
      .ok c) : ∀ b ∈ s.blocks, block.spends.Disjoint b.1.spends := by
  intro b hb out hout hbout
  rcases (ConnectBlock_live hgenesis hfresh.ids hc).2 out hout with hbefore | hid
  · exact hs.unspent out hbefore b hb hbout
  · exact hfresh.unspent b hb out hbout hid

variable {rest : List ChainEntry}

theorem blocks_cons {tip : ChainEntry}
    (hchain : s.chainActive = tip :: rest) :
    s.blocks = tip.key :: rest.map key := by
  unfold StakeChain.blocks
  rw [hchain]
  rfl

variable {pindexNew : CBlockIndex}

theorem connectTip_sound
    (hs : s.Sound) (hfresh : FreshIds block s) :
    (ConnectTip N block pindexNew fAlreadyChecked s).Sound := by
  rcases ConnectTip_effect N s block pindexNew fAlreadyChecked with
    hsame | ⟨tip, rest, c, hchain, hheight, hgenesis, hc, hs'⟩
  · rw [hsame]
    exact hs
  · rw [hs']
    have hblocks := blocks_cons hchain
    have hnHeight : c.pindex.nHeight = pindexNew.nHeight := ConnectBlock_nHeight hc
    refine ⟨?_, ?_, ?_, ?_⟩
    · show Numbered Prod.snd ((block, c.pindex.nHeight) :: s.blocks)
      rw [hnHeight, hblocks]
      exact isChain_cons_cons.mpr ⟨hheight, hblocks ▸ hs.heights⟩
    · intro out k hk
      rcases of_connect hk with hold | ⟨hmem, rfl⟩
      · obtain ⟨b, hb, hout, hbk⟩ := hs.entered out k hold
        exact ⟨b, .tail _ hb, hout, hbk⟩
      · exact ⟨_, .head _, hmem, hnHeight⟩
    · intro out hout b hb
      obtain ⟨hfrom, hnot⟩ := (ConnectBlock_live hgenesis hfresh.ids hc).1 out hout
      rcases mem_cons.mp hb with rfl | hb
      · exact hnot
      · rcases hfrom with hbefore | hid
        · exact hs.unspent out hbefore b hb
        · exact fun hbout => hfresh.unspent b hb out hbout hid
    · exact pairwise_cons.mpr ⟨hfresh.disjoint hs hgenesis hc, hs.once⟩

theorem connectTip_remembers
    (hs : s.Sound) (hr : s.RemembersSpent) (hfresh : FreshIds block s) :
    (ConnectTip N block pindexNew fAlreadyChecked s).RemembersSpent := by
  refine ⟨?_, (connectTip_sound hs hfresh).only⟩
  rcases ConnectTip_effect N s block pindexNew fAlreadyChecked with
    hsame | ⟨tip, rest, c, hchain, hheight, hgenesis, hc, hs'⟩
  · rw [hsame]
    exact hr.held
  · rw [hs']
    intro b hb out hout
    have hblocks := blocks_cons hchain
    have hwindow : b ∈ (block, c.pindex.nHeight) :: s.blocks.take 99 := hb
    rcases mem_cons.mp hwindow with rfl | hold
    · rw [ConnectBlock_nHeight hc]
      refine connect_of_none ?_ hout
      by_contra hne
      obtain ⟨a, ha, haout⟩ := hs.only out hne
      exact hfresh.disjoint hs hgenesis hc a ha hout haout
    · -- the blocks before it are not old enough to be deleted
      have hrange := ((Numbered.mem_take_iff (hblocks ▸ hs.heights)).mp (hblocks ▸ hold)).2
      have hheld := hr.held b ((take_subset_take_left _ (by decide)) hold) out hout
      refine connect_of_some hheld ?_
      have hlt : tip.pindex.nHeight - 99 < b.2 := hrange
      show pindexNew.nHeight - (100 : Int) ≤ b.2
      omega

/-! ## A block disconnected -/

theorem StakeChain.Sound.of_map {s' : StakeChain} (hs : s.Sound) (hblocks : s'.blocks = s.blocks)
    (hcoins : s'.pcoinsTip = s.pcoinsTip)
    (hentered : ∀ out k, s'.mapStakeSpent out = some k → s.mapStakeSpent out = some k ∨
      ∃ b ∈ s.blocks, out ∈ b.1.spends ∧ b.2 = k) : s'.Sound where
  heights := hblocks ▸ hs.heights
  entered := by
    intro out k hk
    rw [hblocks]
    rcases hentered out k hk with hin | hb
    · exact hs.entered out k hin
    · exact hb
  unspent := fun out hlive b hb => hs.unspent out (hcoins ▸ hlive) b (hblocks ▸ hb)
  once := hblocks ▸ hs.once

variable {view : CCoinsView} {out : COutPoint}

theorem restoredInputs_sub {pindex : CBlockIndex} :
    ∀ {l : List (CTransaction × List CTxInUndo)}, out ∈ restoredInputs N pindex l view →
    ∃ p ∈ l, out ∈ p.1.spends
  | [], h => (nomatch h)
  | (tx, vprevout) :: rest, h => by
    have hrest : out ∈ restoredInputs N pindex rest view →
        ∃ p ∈ (tx, vprevout) :: rest, out ∈ p.1.spends := by
      intro hmem
      obtain ⟨p, hp, hout⟩ := restoredInputs_sub hmem
      exact ⟨p, .tail _ hp, hout⟩
    rw [restoredInputs] at h
    split at h
    · exact hrest h
    · rcases mem_append.mp h with hmem | hmem
      · exact ⟨_, .head _, hmem⟩
      · exact hrest hmem

theorem restoredInputs_all {pindex : CBlockIndex} :
    ∀ {l : List (CTransaction × List CTxInUndo)} {r : CCoinsView × Bool},
    disconnectTxs N pindex l view = .ok r → ∀ p ∈ l, out ∈ p.1.spends →
    out ∈ restoredInputs N pindex l view
  | [], _, _, p, hp, _ => (nomatch hp)
  | (tx, vprevout) :: rest, r, h, p, hp, hout => by
    rw [restoredInputs, h]
    refine mem_append.mpr ?_
    rcases mem_cons.mp hp with rfl | hp
    · exact .inl hout
    · simp only [disconnectTxs, bind_eq_ok] at h
      obtain ⟨mid, hrest, -⟩ := h
      exact .inr (restoredInputs_all hrest p hp hout)

variable {pindex pprev : CBlockIndex}

theorem erasedInputs_sub
    (h : out ∈ erasedInputs N block pindex pprev view) : out ∈ block.spends := by
  unfold erasedInputs at h
  split at h
  · cases h
  · split at h
    · cases h
    next vtxundo _ =>
      split at h
      · cases h
      · obtain ⟨p, hp, hout⟩ := restoredInputs_sub h
        exact mem_spends.mpr ⟨p.1, (of_mem_zip hp).1, hout⟩

theorem erasedInputs_all
    {r : CCoinsView × Bool}
    (h : DisconnectBlock N block pindex pprev view = .ok r) (hout : out ∈ block.spends) :
    out ∈ erasedInputs N block pindex pprev view := by
  simp only [DisconnectBlock, rejectIf_eq_ok] at h
  obtain ⟨hbest, h⟩ := h
  unfold erasedInputs
  rw [if_neg (by rw [hbest]; exact Bool.false_ne_true)]
  cases hundo : pindex.undo with
  | none =>
    rw [hundo] at h
    cases h
  | some undo =>
    rw [bind_some]
    cases hread : ReadFromDisk N undo (pprev.phashBlock.getD 0) with
    | none =>
      rw [hundo] at h
      dsimp only at h
      rw [hread] at h
      cases h
    | some vtxundo =>
      rw [hundo] at h
      dsimp only at h ⊢
      rw [hread] at h
      simp only [rejectIf_eq_ok, bind_eq_ok] at h
      obtain ⟨hlen, r', hdisc, -⟩ := h
      rw [if_neg (by rw [hlen]; exact Bool.false_ne_true)]
      obtain ⟨tx, htx, hspend⟩ := mem_spends.mp hout
      -- every transaction is met with undo data
      have hpair : tx ∈ (block.vtx.zip ([] :: vtxundo)).map Prod.fst := by
        have hlen' : vtxundo.length + 1 = block.vtx.length := by simpa using hlen
        rw [map_fst_zip (by rw [length_cons, hlen'])]
        exact htx
      obtain ⟨p, hp, rfl⟩ := mem_map.mp hpair
      exact restoredInputs_all hdisc p hp hspend

variable {m : StakeSpent}

theorem disconnectSpent_apply
    : disconnectSpent N block pindex pprev view m out =
      if out ∈ erasedInputs N block pindex pprev view then none else m out :=
  foldl_erase _ _

theorem disconnectSpent_some
    {k : Int}
    (h : disconnectSpent N block pindex pprev view m out = some k) :
    m out = some k ∧ out ∉ erasedInputs N block pindex pprev view := by
  rw [disconnectSpent_apply] at h
  split at h
  · cases h
  next hnot => exact ⟨h, hnot⟩

theorem DisconnectTip_effect (N : CDisconnectNode) (s : StakeChain) :
    (∀ tip prev rest, s.chainActive ≠ tip :: prev :: rest) ∧ DisconnectTip N s = s ∨
    ∃ tip prev rest, s.chainActive = tip :: prev :: rest ∧
      ((∃ view, DisconnectBlock N tip.block tip.pindex prev.pindex s.pcoinsTip = .ok (view, true) ∧
          DisconnectTip N s = ⟨prev :: rest, view,
            disconnectSpent N tip.block tip.pindex prev.pindex s.pcoinsTip s.mapStakeSpent⟩) ∨
        ¬ ComesOff N s tip prev ∧ DisconnectTip N s = { s with
          mapStakeSpent :=
            disconnectSpent N tip.block tip.pindex prev.pindex s.pcoinsTip s.mapStakeSpent }) := by
  unfold DisconnectTip
  split
  next tip prev rest hchain =>
    refine .inr ⟨tip, prev, rest, hchain, ?_⟩
    split
    next view hview => exact .inl ⟨view, hview, rfl⟩
    next hnot => exact .inr ⟨fun ⟨view, hview⟩ => hnot view hview, rfl⟩
  next hnot => exact .inl ⟨fun tip prev rest hchain => hnot tip prev rest hchain, rfl⟩

theorem disconnectSpent_none {tip prev : ChainEntry}
    (h : erasedInputs N tip.block tip.pindex prev.pindex s.pcoinsTip = []) :
    disconnectSpent N tip.block tip.pindex prev.pindex s.pcoinsTip s.mapStakeSpent =
      s.mapStakeSpent := by
  unfold disconnectSpent
  rw [h]
  rfl

theorem StakeChain.Sound.below_tip {tip : ChainEntry} (hs : s.Sound)
    (hchain : s.chainActive = tip :: rest) : ∀ b ∈ rest.map key, ∀ out ∈ b.1.spends,
    out ∉ tip.block.spends := by
  intro b hb out hout htipout
  have honce := hs.once
  rw [blocks_cons hchain] at honce
  exact (pairwise_cons.mp honce).1 b hb htipout hout

theorem disconnectTip_sound (hs : s.Sound) : (DisconnectTip N s).Sound := by
  rcases DisconnectTip_effect N s with
    ⟨-, hsame⟩ | ⟨tip, prev, rest, hchain, ⟨view, hview, hs'⟩ | ⟨-, hs'⟩⟩
  · rw [hsame]
    exact hs
  · rw [hs']
    have hblocks := blocks_cons hchain
    have hsub : ∀ b ∈ (prev :: rest).map key, b ∈ s.blocks := by
      intro b hb
      rw [hblocks]
      exact .tail _ hb
    refine ⟨?_, ?_, ?_, ?_⟩
    · exact Numbered.tail (hblocks ▸ hs.heights)
    · intro out k hk
      obtain ⟨hbefore, hnot⟩ := disconnectSpent_some hk
      obtain ⟨b, hb, hout, hbk⟩ := hs.entered out k hbefore
      rw [hblocks] at hb
      rcases mem_cons.mp hb with rfl | hb
      · exact absurd (erasedInputs_all hview hout) hnot
      · exact ⟨b, hb, hout, hbk⟩
    · intro out hlive b hb
      rcases DisconnectBlock_live hview hlive with hbefore | htipout
      · exact hs.unspent out hbefore b (hsub b hb)
      · exact fun hout => hs.below_tip hchain b hb out hout htipout
    · have honce := hs.once
      rw [hblocks] at honce
      exact honce.tail
  · rw [hs']
    exact hs.of_map rfl rfl fun out k hk => .inl (disconnectSpent_some hk).1

theorem disconnectTip_remembers (hs : s.Sound) (hr : s.RemembersSpent)
    (hok : ∀ tip prev rest, s.chainActive = tip :: prev :: rest → CostsNothing N s tip prev) :
    (DisconnectTip N s).RemembersSpent := by
  refine ⟨?_, (disconnectTip_sound hs).only⟩
  rcases DisconnectTip_effect N s with
    ⟨-, hsame⟩ | ⟨tip, prev, rest, hchain, ⟨view, hview, hs'⟩ | ⟨hnot, hs'⟩⟩
  · rw [hsame]
    exact hr.held
  · rw [hs']
    intro b hb out hout
    have hmem : b ∈ (prev :: rest).map key := mem_of_mem_take hb
    have hheld : s.mapStakeSpent out = some b.2 := by
      rcases mem_take_tail tip.key hb with hin | hback
      · refine hr.held b ?_ out hout
        rw [StakeChain.window, blocks_cons hchain]
        exact hin
      · refine (hok tip prev rest hchain).kept ⟨view, hview⟩ b ?_ out hout
        rw [blocks_cons hchain]
        exact hback
    show disconnectSpent N tip.block tip.pindex prev.pindex s.pcoinsTip s.mapStakeSpent out = _
    rw [disconnectSpent_apply, if_neg fun herased =>
      hs.below_tip hchain b hmem out hout (erasedInputs_sub herased)]
    exact hheld
  · -- nothing was restored, so nothing is lost
    rw [hs', disconnectSpent_none ((hok tip prev rest hchain).early hnot)]
    exact hr.held

/-! ## A verification -/

variable {V : VerifyCall}

theorem verifyBlock_effect {nCheckLevel : Int} {entry : ChainEntry} {pprev : CBlockIndex}
    {back back' : VerifyBack} {ok : Bool}
    (h : verifyBlock N V nCheckLevel entry pprev back = (back', ok)) :
    (∀ out, back'.mapStakeSpent out = none ∨ back'.mapStakeSpent out = back.mapStakeSpent out) ∧
      (back'.undone = back.undone ∧ (ok = true → back'.atState = false) ∨
        back.atState = true ∧ back'.undone = entry :: back.undone) := by
  have hlose : ∀ m, m = disconnectSpent N entry.block entry.pindex pprev back.coins
      back.mapStakeSpent → ∀ out, m out = none ∨ m out = back.mapStakeSpent out := by
    rintro m rfl out
    rw [disconnectSpent_apply]
    split
    · exact .inl rfl
    · exact .inr rfl
  unfold verifyBlock at h
  split at h
  · cases h
    exact ⟨fun out => .inr rfl, .inl ⟨rfl, by simp⟩⟩
  · split at h
    · cases h
      exact ⟨fun out => .inr rfl, .inl ⟨rfl, by simp⟩⟩
    · split at h
      · cases h
        exact ⟨fun out => .inr rfl, .inl ⟨rfl, by simp⟩⟩
      · split at h
        next hgo =>
          split at h
          · cases h
            exact ⟨hlose _ rfl, .inl ⟨rfl, by simp⟩⟩
          · cases h
            exact ⟨hlose _ rfl, .inr ⟨hgo.2.1, rfl⟩⟩
        · cases h
          exact ⟨fun out => .inr rfl, .inl ⟨rfl, fun _ => rfl⟩⟩

theorem verifyBack_effect {nCheckLevel nStopHeight : Int} (chain : List ChainEntry) :
    ∀ {l : List ChainEntry} {back back' : VerifyBack} {r : Option Bool},
    verifyBack N V nCheckLevel nStopHeight l back = (back', r) →
    (∃ below, chain = back.undone.reverse ++ below ∧ (back.atState = true → below = l)) →
    (∃ below, chain = back'.undone.reverse ++ below) ∧
      ∀ out, back'.mapStakeSpent out = none ∨ back'.mapStakeSpent out = back.mapStakeSpent out
  | [], back, back', r, h, ⟨below, hbelow, _⟩ => by
    cases h
    exact ⟨⟨below, hbelow⟩, fun out => .inr rfl⟩
  | [entry], back, back', r, h, ⟨below, hbelow, _⟩ => by
    cases h
    exact ⟨⟨below, hbelow⟩, fun out => .inr rfl⟩
  | entry :: prev :: rest, back, back', r, h, ⟨below, hbelow, hat⟩ => by
    rw [verifyBack] at h
    split at h
    · cases h
      exact ⟨⟨below, hbelow⟩, fun out => .inr rfl⟩
    · cases hstep : verifyBlock N V nCheckLevel entry prev.pindex back with
      | mk mid ok =>
        obtain ⟨hmap, hundone⟩ := verifyBlock_effect hstep
        have hmid : ∃ below', chain = mid.undone.reverse ++ below' ∧
            (ok = true → mid.atState = true → below' = prev :: rest) := by
          rcases hundone with ⟨hsame, hleft⟩ | ⟨hstate, hcons⟩
          · refine ⟨below, hsame ▸ hbelow, fun hok hmidat => ?_⟩
            rw [hleft hok] at hmidat
            cases hmidat
          · refine ⟨prev :: rest, ?_, fun _ _ => rfl⟩
            rw [hcons, reverse_cons, append_assoc, hbelow, hat hstate]
            rfl
        obtain ⟨below', hbelow', hat'⟩ := hmid
        rw [hstep] at h
        cases ok with
        | false =>
          cases h
          exact ⟨⟨below', hbelow'⟩, hmap⟩
        | true =>
          dsimp only at h
          split at h
          · cases h
            exact ⟨⟨below', hbelow'⟩, hmap⟩
          · obtain ⟨hend, hrest⟩ := verifyBack_effect chain h ⟨below', hbelow', hat' rfl⟩
            refine ⟨hend, fun out => ?_⟩
            rcases hrest out with hnone | hsame
            · exact .inl hnone
            · rw [hsame]
              exact hmap out

theorem connectSpent_ok
    {m m' : StakeSpent} {c : Connected}
    (h : connectSpent N block pindex pprev view m fAlreadyChecked = .ok (c, m')) :
    c.pindex.nHeight = pindex.nHeight ∧
      m' = if block.hash = N.hashGenesisBlock then m else m.connect block pindex.nHeight := by
  simp only [connectSpent, bind_eq_ok] at h
  obtain ⟨c', hc, h⟩ := h
  cases h
  exact ⟨ConnectBlock_nHeight hc, rfl⟩

/-- The way forth, one outpoint at a time. -/
structure Forth (N : CDisconnectNode) (undone chain chain' : List ChainEntry) (m m' : StakeSpent)
    (ok : Bool) : Prop where
  blocks : chain'.map ChainEntry.key = undone.reverse.map ChainEntry.key ++ chain.map ChainEntry.key
  entered : ∀ out k, m' out = some k → m out = some k ∨
    ∃ e ∈ undone, out ∈ e.block.spends ∧ e.pindex.nHeight = k
  kept : ∀ out k, m out = some k →
    (∀ e ∈ undone, e.pindex.nHeight - MaxReorganizationDepth ≤ k) → m' out = some k
  found : ok = true → ∀ out k, m out = none →
    (∃ e ∈ undone, out ∈ e.block.spends ∧ e.block.hash ≠ N.hashGenesisBlock) →
    (∀ e ∈ undone, out ∈ e.block.spends → e.pindex.nHeight = k) →
    (∀ e ∈ undone, e.pindex.nHeight - MaxReorganizationDepth ≤ k) → m' out = some k

theorem Forth.stopped {entry : ChainEntry} {undone chain : List ChainEntry} :
    Forth N (entry :: undone) chain (undone.reverse ++ entry :: chain) m m false where
  blocks := by
    rw [map_append, reverse_cons, map_append, append_assoc]
    rfl
  entered := fun _ _ h => .inl h
  kept := fun _ _ h _ => h
  found := nofun

theorem verifyForth_effect : ∀ {undone chain chain' : List ChainEntry} {coins : CCoinsView}
    {m m' : StakeSpent} {ok : Bool},
    verifyForth N V undone chain coins m = ((chain', m'), ok) →
    Forth N undone chain chain' m m' ok
  | [], chain, chain', coins, m, m', ok, h => by
    cases h
    exact ⟨rfl, fun _ _ h => .inl h, fun _ _ h _ => h, fun _ _ _ _ ⟨_, he, _⟩ => (nomatch he)⟩
  | entry :: undone, chain, chain', coins, m, m', ok, h => by
    rw [verifyForth] at h
    split at h
    · cases h
      exact .stopped
    next prev hprev =>
      split at h
      · cases h
        exact .stopped
      · split at h
        · cases h
          exact .stopped
        next c m₁ hc =>
          obtain ⟨hheight, hm₁⟩ := connectSpent_ok hc
          have ih := verifyForth_effect h
          -- what this block does to an outpoint
          have hkeep : ∀ out k, m out = some k →
              entry.pindex.nHeight - MaxReorganizationDepth ≤ k → m₁ out = some k := by
            intro out k hk hlow
            rw [hm₁]
            split
            · exact hk
            · exact connect_of_some hk hlow
          refine ⟨?_, ?_, ?_, ?_⟩
          · rw [ih.blocks, map_cons, reverse_cons, map_append, append_assoc]
            show _ ++ (entry.block, c.pindex.nHeight) :: _ = _
            rw [hheight]
            rfl
          · intro out k hk
            rcases ih.entered out k hk with hone | ⟨e, he, hout, hek⟩
            · rw [hm₁] at hone
              split at hone
              · exact .inl hone
              · rcases of_connect hone with hold | ⟨hmem, rfl⟩
                · exact .inl hold
                · exact .inr ⟨entry, .head _, hmem, rfl⟩
            · exact .inr ⟨e, .tail _ he, hout, hek⟩
          · intro out k hk hlow
            exact ih.kept out k (hkeep out k hk (hlow entry mem_cons_self))
              fun e he => hlow e (.tail _ he)
          · intro hok out k hnone hsome hheights hlow
            have hlow' : ∀ e ∈ undone, e.pindex.nHeight - MaxReorganizationDepth ≤ k :=
              fun e he => hlow e (.tail _ he)
            by_cases hhere : out ∈ entry.block.spends ∧ entry.block.hash ≠ N.hashGenesisBlock
            · refine ih.kept out k ?_ hlow'
              rw [hm₁, if_neg hhere.2, connect_of_none hnone hhere.1,
                hheights entry mem_cons_self hhere.1]
            · have hnone' : m₁ out = none := by
                rw [hm₁]
                split
                · exact hnone
                next hne => exact connect_none hnone fun hmem => hhere ⟨hmem, hne⟩
              refine ih.found hok out k hnone' ?_ (fun e he => hheights e (.tail _ he)) hlow'
              obtain ⟨e, he, hout, hne⟩ := hsome
              rcases mem_cons.mp he with rfl | he
              · exact absurd ⟨hout, hne⟩ hhere
              · exact ⟨e, he, hout, hne⟩

theorem VerifyDB_effect (N : CDisconnectNode) (V : VerifyCall) (s : StakeChain) :
    ∃ below, s.chainActive = (wayBack N V s).1.undone.reverse ++ below ∧
      (∀ out k, (wayBack N V s).1.mapStakeSpent out = some k → s.mapStakeSpent out = some k) ∧
      ((VerifyDB N V s).1 = { s with mapStakeSpent := (wayBack N V s).1.mapStakeSpent } ∧
          ((wayBack N V s).2 = none → 4 ≤ V.nCheckLevel → (VerifyDB N V s).2 = false) ∨
        ∃ chain' m', Forth N (wayBack N V s).1.undone below chain' (wayBack N V s).1.mapStakeSpent
            m' (VerifyDB N V s).2 ∧
          (VerifyDB N V s).1 = ⟨chain', s.pcoinsTip, m'⟩) := by
  cases hback : wayBack N V s with
  | mk back r =>
    obtain ⟨⟨below, hchain⟩, hmap⟩ := verifyBack_effect s.chainActive hback
      ⟨s.chainActive, rfl, fun _ => rfl⟩
    refine ⟨below, hchain, ?_, ?_⟩
    · intro out k hk
      rcases hmap out with hnone | hsame
      · cases hnone.symm.trans hk
      · exact hsame.symm.trans hk
    · unfold VerifyDB
      rw [hback]
      cases r with
      | some fVerified => exact .inl ⟨rfl, nofun⟩
      | none =>
        dsimp only
        cases hclean : back.fClean with
        | false => exact .inl ⟨rfl, fun _ _ => rfl⟩
        | true =>
          by_cases hlevel : 4 ≤ V.nCheckLevel
          · have hbelow : s.chainActive.drop back.undone.length = below := by
              rw [hchain, ← length_reverse, drop_left]
            rw [if_pos hlevel, hbelow]
            exact .inr ⟨_, _, verifyForth_effect rfl, rfl⟩
          · rw [if_neg hlevel]
            exact .inl ⟨rfl, fun _ hf => absurd hf hlevel⟩

theorem undone_mem {below undone : List ChainEntry}
    (hchain : s.chainActive = undone.reverse ++ below)
    {e : ChainEntry} (he : e ∈ undone) : e.key ∈ s.blocks := by
  refine mem_map_of_mem ?_
  rw [hchain]
  exact mem_append_left _ (mem_reverse.mpr he)

theorem window_low (hs : s.Sound) {b b' : HighBlock} (hb : b ∈ s.window) (hb' : b' ∈ s.blocks) :
    b'.2 - MaxReorganizationDepth ≤ b.2 := by
  have hheights := hs.heights
  rw [StakeChain.window] at hb
  cases hlist : s.blocks with
  | nil =>
    rw [hlist] at hb'
    cases hb'
  | cons top rest =>
    rw [hlist] at hb hb' hheights
    have hle := hheights.le_top hb'
    have hlt := (hheights.mem_take_iff.mp hb).2
    omega

theorem Forth.blocks_eq {below undone chain' : List ChainEntry} {m m' : StakeSpent} {ok : Bool}
    (hchain : s.chainActive = undone.reverse ++ below) (h : Forth N undone below chain' m m' ok) :
    (StakeChain.mk chain' s.pcoinsTip m').blocks = s.blocks := by
  unfold StakeChain.blocks
  rw [hchain, map_append]
  exact h.blocks

theorem VerifyDB_sound (hs : s.Sound) : (VerifyDB N V s).1.Sound := by
  obtain ⟨below, hchain, hold, ⟨hend, -⟩ | ⟨chain', m', hforth, hend⟩⟩ := VerifyDB_effect N V s
  · rw [hend]
    exact hs.of_map rfl rfl fun out k hk => .inl (hold out k hk)
  · rw [hend]
    refine hs.of_map (hforth.blocks_eq hchain) rfl fun out k hk => ?_
    rcases hforth.entered out k hk with hin | ⟨e, he, hout, hek⟩
    · exact .inl (hold out k hin)
    · exact .inr ⟨e.key, undone_mem hchain he, hout, hek⟩

theorem VerifyDB_remembers (hs : s.Sound) (hfound : FoundAgain N s V) :
    (VerifyDB N V s).1.RemembersSpent := by
  have hsound := VerifyDB_sound (N := N) (V := V) hs
  refine ⟨?_, hsound.only⟩
  obtain ⟨below, hchain, hold, ⟨hend, hstop⟩ | ⟨chain', m', hforth, hend⟩⟩ := VerifyDB_effect N V s
  · rw [hend] at hsound ⊢
    intro b hb out hout
    refine (hsound.entry (mem_of_mem_take hb) hout).resolve_left fun hnone => ?_
    obtain ⟨hback, hlevel, hpass, -⟩ := hfound b hb out hout hnone
    rw [hstop hback hlevel] at hpass
    cases hpass
  · rw [hend]
    intro b hb out hout
    have hwindow : b ∈ s.window := by
      rw [StakeChain.window, ← hforth.blocks_eq hchain]
      exact hb
    have hmem : b ∈ s.blocks := mem_of_mem_take hwindow
    have hlow : ∀ e ∈ (wayBack N V s).1.undone, e.pindex.nHeight - MaxReorganizationDepth ≤ b.2 :=
      fun e he => window_low hs hwindow (undone_mem hchain he)
    cases hback : (wayBack N V s).1.mapStakeSpent out with
    | some k =>
      -- the way back has left the entry
      refine hforth.kept out b.2 ?_ hlow
      rcases hs.entry hmem hout with hnone | hsome
      · cases hnone.symm.trans (hold out k hback)
      · rw [hback, ← hold out k hback, hsome]
    | none =>
      -- the block is connected again
      obtain ⟨-, -, hpass, hgenesis, hundone⟩ := hfound b hwindow out hout hback
      obtain ⟨e, he, rfl⟩ := mem_map.mp hundone
      refine hforth.found hpass out _ hback ⟨e, he, hout, hgenesis⟩ ?_ hlow
      intro e' he' hout'
      exact congrArg Prod.snd (hs.spender (undone_mem hchain he') hmem hout' hout)

/-! ## Runs -/

theorem loaded_sound (hs : s.Sound) : s.loaded.Sound := hs.of_map rfl rfl nofun

/-- The condition under which a step keeps the node sound. -/
def KeepsSound (s : StakeChain) : ChainEvent → Prop
  | .connectTip _ block _ _ => FreshIds block s
  | _ => True

variable {e : ChainEvent}

theorem chainStep_sound (hs : s.Sound) (hok : KeepsSound s e) :
    (chainStep s e).Sound := by
  cases e with
  | connectTip N block pindexNew fAlreadyChecked => exact connectTip_sound hs hok
  | disconnectTip N => exact disconnectTip_sound hs
  | startUp N V => exact VerifyDB_sound (loaded_sound hs)
  | verifyChain N V => exact VerifyDB_sound hs

theorem KeepsSpent.sound (h : KeepsSpent s e) : KeepsSound s e := by
  cases e with
  | connectTip N block pindexNew fAlreadyChecked => exact h
  | disconnectTip N => trivial
  | startUp N V => trivial
  | verifyChain N V => trivial

/-- **One step.** -/
theorem chainStep_remembers (hs : s.Sound) (hr : s.RemembersSpent)
    (hok : KeepsSpent s e) : (chainStep s e).RemembersSpent := by
  cases e with
  | connectTip N block pindexNew fAlreadyChecked => exact connectTip_remembers hs hr hok
  | disconnectTip N => exact disconnectTip_remembers hs hr hok
  | startUp N V => exact VerifyDB_remembers (loaded_sound hs) hok
  | verifyChain N V => exact VerifyDB_remembers hs hok

/-- The node is sound in every state of a run in which no transaction id is used twice. -/
theorem sound_throughout {s : StakeChain} {es : List ChainEvent} (hs : s.Sound)
    (hrun : Guarded chainStep KeepsSound s es) : Throughout chainStep StakeChain.Sound s es :=
  throughout_of_guarded (fun _ _ => chainStep_sound) hs hrun

end

/-- **The map knows the spends of the last blocks, and no others, in every state of a run
whose steps meet the condition.** -/
theorem stake_spent_remembered (s : StakeChain) (es : List ChainEvent) (hs : s.Sound)
    (hr : s.RemembersSpent) (hrun : Guarded chainStep KeepsSpent s es) :
    Throughout chainStep (fun s' => s'.Sound ∧ s'.RemembersSpent) s es :=
  throughout_of_guarded (P := fun s' => s'.Sound ∧ s'.RemembersSpent)
    (fun _ _ h hok => ⟨chainStep_sound h.1 hok.sound, chainStep_remembers h.1 h.2 hok⟩)
      ⟨hs, hr⟩ hrun

/-! ## A hundred blocks and two more -/

/-- The node of the examples, with its tip at `nHeight`.  The blocks of hash 100 to 102
are at the heights from 999 on. -/
def heightNode (nHeight : Nat) : CDisconnectNode :=
  { quietDisconnectNode with
    chainTip := some { quietTip nHeight with phashBlock := some (BitVec.ofNat 256 (nHeight - 899)) }
    mapBlockIndex := fun hash => if 100 ≤ hash ∧ hash ≤ 102 then some (899 + hash.toNat) else none }

/-- The blocks up to height 999 have no transactions, but for the one at height 900. -/
def lowBlock (nHeight : Int) : CBlock where
  hash := if nHeight = 999 then 100 else 50
  nVersion := 4
  hashPrevBlock := 50
  nTime := 1600000000
  vtx := if nHeight = 900 then [⟨6, 1, [⟨⟨5, 0⟩, [], 0⟩], [⟨COIN, []⟩], 0⟩] else []
  vchBlockSig := []

def lowEntry (nHeight : Int) : ChainEntry where
  block := lowBlock nHeight
  pindex := quietTip nHeight

def twoCoins : CCoinsView where
  coins txid := if txid = 7 ∨ txid = 9 then ⟨false, false, [⟨COIN, []⟩], 5, 1⟩ else .null
  hashBlock := 100

/-- The blocks from height 898 to 999; the map knows the one spend. -/
def lowChain : StakeChain where
  chainActive := (List.range 102).map fun i => lowEntry (999 - i)
  pcoinsTip := twoCoins
  mapStakeSpent out := if out = ⟨5, 0⟩ then some 900 else none

def secondBlock : CBlock where
  hash := 102
  nVersion := 4
  hashPrevBlock := 101
  nTime := 1600000120
  vtx := [⟨300, 1, [⟨.SetNull, [1, 2], 0⟩], [.empty], 0⟩,
    ⟨301, 1, [⟨⟨9, 0⟩, [], 0⟩], [.empty, ⟨2 * COIN, []⟩], 0⟩]
  vchBlockSig := []

def secondIndex : CBlockIndex := { quietTip 1001 with phashBlock := some 102 }

def twoThereAndBack : List ChainEvent :=
  [.connectTip (heightNode 999) (quietBlock (2 * COIN) []) (quietIndex 999) false,
    .connectTip (heightNode 1000) secondBlock secondIndex false,
    .disconnectTip (heightNode 1001), .disconnectTip (heightNode 1000)]

theorem lowChain_active :
    lowChain.chainActive = (List.range 102).map fun i : ℕ => lowEntry (999 - i) := by
  simp only [lowChain, List.bind_eq_flatMap, List.pure_def]
  rw [← map_eq_flatMap, List.map_map]
  rfl

theorem lowChain_spends : ∀ b ∈ lowChain.blocks, ∀ out ∈ b.1.spends, out = ⟨5, 0⟩ ∧ b.2 = 900 := by
  decide

theorem lowChain_heights : Numbered Prod.snd lowChain.blocks := by
  rw [StakeChain.blocks, lowChain_active]
  refine (isChain_map _).mpr ((isChain_map _).mpr ((isChain_range_succ _ 101).mpr fun i _ => ?_))
  show (999 - i : Int) = 999 - (i + 1 : ℕ) + 1
  omega

theorem lowChain_sound : lowChain.Sound where
  heights := lowChain_heights
  entered := by
    intro out k hk
    have hmap : (if out = ⟨5, 0⟩ then some (900 : Int) else none) = some k := hk
    split at hmap
    next heq =>
      cases hmap
      rw [heq]
      decide
    · cases hmap
  unspent := by
    intro out hlive b hb hout
    rw [(lowChain_spends b hb out hout).1] at hlive
    exact absurd hlive (by unfold CCoinsView.Live; decide)
  once := by
    -- the heights differ, and only one block spends anything
    have hdown : lowChain.blocks.Pairwise fun a b => a.2 ≠ b.2 := by
      rw [StakeChain.blocks, lowChain_active]
      exact pairwise_map.mpr (pairwise_map.mpr (nodup_range.imp fun hne heq =>
        hne (Int.ofNat_inj.mp (sub_right_injective heq))))
    refine hdown.imp_of_mem fun ha hb hne out hout hout' => hne ?_
    rw [(lowChain_spends _ ha out hout).2, (lowChain_spends _ hb out hout').2]

theorem lowChain_remembers : lowChain.RemembersSpent where
  held := by
    intro b hb out hout
    obtain ⟨rfl, hheight⟩ := lowChain_spends b (mem_of_mem_take hb) out hout
    rw [hheight]
    rfl
  only := lowChain_sound.only

/-- Two blocks are connected and verified, and the second one is disconnected. -/
def thereVerifiedAndBack : List ChainEvent :=
  [.connectTip (heightNode 999) (quietBlock (2 * COIN) []) (quietIndex 999) false,
    .connectTip (heightNode 1000) secondBlock secondIndex false,
    .verifyChain (heightNode 1001) ⟨4, 1, fun _ => true, fun _ => true, fun _ => false⟩,
    .disconnectTip (heightNode 1001)]

/-- Whether the tip can be disconnected, and the block that comes back has its entries. -/
def costsNothing (N : CDisconnectNode) (s : StakeChain) : Bool :=
  (match s.chainActive with
    | tip :: prev :: _ =>
      match DisconnectBlock N tip.block tip.pindex prev.pindex s.pcoinsTip with
      | .ok (_, fClean) => fClean
      | .error _ => false
    | _ => false) &&
    (s.blocks[MaxReorganizationDepth]?).all fun b =>
      b.1.spends.all fun out => s.mapStakeSpent out == some b.2

theorem costsNothing_ok {N : CDisconnectNode} {s : StakeChain} (h : costsNothing N s = true) :
    KeepsSpent s (.disconnectTip N) := by
  intro tip prev rest hchain
  unfold costsNothing at h
  rw [hchain, Bool.and_eq_true] at h
  obtain ⟨hoff, hback⟩ := h
  refine ⟨fun hnot => absurd ?_ hnot, fun _ b hb out hout => ?_⟩
  · dsimp only at hoff
    split at hoff
    next view fClean hview => exact ⟨view, hoff ▸ hview⟩
    · cases hoff
  · rw [hb, all_some] at hback
    simpa using all_eq_true.mp hback out hout

theorem verified_chain_remembers :
    Throughout chainStep (fun s' => s'.Sound ∧ s'.RemembersSpent) lowChain
      thereVerifiedAndBack := by
  refine stake_spent_remembered lowChain thereVerifiedAndBack lowChain_sound lowChain_remembers
    ⟨⟨⟨by decide, by decide⟩, ?_⟩, ⟨⟨by decide, by decide +kernel⟩, by decide +kernel⟩, ?_,
      costsNothing_ok (by decide +kernel), trivial⟩
  · intro b hb out hout
    rw [(lowChain_spends b hb out hout).1]
    decide
  · unfold KeepsSpent FoundAgain
    decide +kernel

/-- **Two blocks disconnected in a row.**  The block at height 900 is one of the last
hundred again, and the map has lost what it spends. -/
theorem two_blocks_back_forget :
    ¬ ∀ (s : StakeChain) (es : List ChainEvent), s.Sound → s.RemembersSpent →
      Throughout chainStep StakeChain.RemembersSpent s es := by
  intro hall
  have hend := hall lowChain twoThereAndBack lowChain_sound lowChain_remembers twoThereAndBack
    (prefix_refl _)
  have hwindow : (lowBlock 900, (900 : Int)) ∈
      (twoThereAndBack.foldl chainStep lowChain).window := by
    decide +kernel
  have hheld := hend.held _ hwindow ⟨5, 0⟩ (by decide +kernel)
  have hgone : (twoThereAndBack.foldl chainStep lowChain).mapStakeSpent ⟨5, 0⟩ = none := by
    decide +kernel
  rw [hgone] at hheld
  cases hheld

end Divitae
