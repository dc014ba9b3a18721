/-
# `SupplyRuns` — the supplies count the chain

The numbers of an entry on the chain count the mints less the spends of the blocks up to
it (`Counts`).  A connection keeps that when

    the numbers it goes on from are those of the previous entry: the previous block has a
        version above three, or the block's own entry holds the same numbers already
    nothing of the block is on the lists of invalid outputs and serials, from the height
        on where the lists are read, and at the recalculation nothing of the chain is
    the spends name their denomination, which `CheckBlock` makes sure of in blocks from
        after the zerocoin start time

A disconnection touches no entry.
-/
import Divitae.SupplyCounts

namespace Divitae

open Run List Option Function

namespace SupplyChain

variable (Z : Zerocoin) (B : uint256 → CBlock) (s : SupplyChain)

def heightOf (hash : uint256) : Int :=
  (s.mapBlockIndex hash).elim 0 fun entry => entry.pindex.nHeight

/-- What holds of the index: each entry is of the block with its hash, the chain counts, its
blocks can be read, each follows the one below it, and the heights fall. -/
structure Books : Prop where
  blocks : ∀ hash entry, s.mapBlockIndex hash = some entry → entry.block = B hash
  counts : Counts Z B s.mapBlockIndex s.chainActive
  proper : ∀ hash ∈ s.chainActive, Proper Z (B hash)
  linked : s.chainActive.IsChain fun hash hashPrev => (B hash).hashPrevBlock = hashPrev
  falling : s.chainActive.Pairwise fun a b => s.heightOf b < s.heightOf a

variable {Z B s} {index : uint256 → Option ChainEntry} {view : CCoinsView}

theorem heightOf_alike {hash : uint256} (h : AlikeAt s.mapBlockIndex index hash)
    {chain : List uint256} : (SupplyChain.mk index chain view).heightOf hash = s.heightOf hash := by
  rw [heightOf, heightOf]
  rcases h with ⟨hnone, hnone'⟩ | ⟨entry, entry', hentry, hentry', hlike⟩
  · show (index hash).elim 0 _ = _
    rw [hnone, hnone']
  · show (index hash).elim 0 _ = _
    rw [hentry, hentry']
    exact hlike.height

theorem Books.alike (h : s.Books Z B)
    (halike : ∀ hash ∈ s.chainActive, AlikeAt s.mapBlockIndex index hash)
    (hblocks : ∀ hash entry, index hash = some entry → entry.block = B hash) :
    (SupplyChain.mk index s.chainActive view).Books Z B := by
  refine ⟨hblocks, h.counts.alike halike, h.proper, h.linked, ?_⟩
  refine h.falling.imp_of_mem ?_
  intro a b ha hb hlt
  rw [heightOf_alike (halike a ha), heightOf_alike (halike b hb)]
  exact hlt

theorem Books.update (h : s.Books Z B) {hash : uint256} {entry : ChainEntry}
    (hoff : hash ∉ s.chainActive) (hblock : entry.block = B hash) :
    (SupplyChain.mk (Function.update s.mapBlockIndex hash (some entry)) s.chainActive view).Books
      Z B := by
  refine h.alike ?_ ?_
  · intro hash' hmem
    refine .of_eq (update_of_ne ?_ _ _)
    rintro rfl
    exact hoff hmem
  · intro hash' entry' hentry'
    rcases eq_or_ne hash' hash with rfl | hne
    · rw [update_self] at hentry'
      cases hentry'
      exact hblock
    · rw [update_of_ne hne] at hentry'
      exact h.blocks hash' entry' hentry'

theorem Books.push (h : s.Books Z B) {hash : uint256} {entry : ChainEntry}
    (hentry : s.mapBlockIndex hash = some entry) (hproper : Proper Z (B hash))
    (hlink : ∀ hashTip ∈ s.chainActive.head?, (B hash).hashPrevBlock = hashTip)
    (hheight : ∀ hash' ∈ s.chainActive, s.heightOf hash' < entry.pindex.nHeight)
    (hcount : ∀ denom, denom ≠ .ZQ_ERROR →
      entry.pindex.mapZerocoinSupply denom =
        supplyOf Z ((hash :: s.chainActive).map B) denom ∧
        0 ≤ entry.pindex.mapZerocoinSupply denom) :
    (SupplyChain.mk s.mapBlockIndex (hash :: s.chainActive) view).Books Z B := by
  refine ⟨h.blocks, ?_, ?_, isChain_cons.mpr ⟨hlink, h.linked⟩, ?_⟩
  · intro hash' below hsuffix
    rcases suffix_cons_iff.mp hsuffix with heq | hsuffix
    · obtain ⟨rfl, rfl⟩ := cons.inj heq
      exact ⟨entry, hentry, hcount⟩
    · exact h.counts hash' below hsuffix
  · intro hash' hmem
    rcases mem_cons.mp hmem with rfl | hmem
    · exact hproper
    · exact h.proper hash' hmem
  · refine pairwise_cons.mpr ⟨?_, h.falling⟩
    intro hash' hmem
    show s.heightOf hash' < s.heightOf hash
    have hself : s.heightOf hash = entry.pindex.nHeight := by
      rw [heightOf, hentry]
      rfl
    rw [hself]
    exact hheight hash' hmem

/-! ## Steps -/

/-- What is the same in every step, or promised by the callers: scripts are read alike, and a
block that is not checked again has passed `CheckBlock` before. -/
inductive Consistent (Z : Zerocoin) (B : uint256 → CBlock) : SupplyEvent → Prop
  | addToBlockIndex {block : CBlock} {pindex : CBlockIndex} (named : B block.hash = block) :
      Consistent Z B (.addToBlockIndex block pindex)
  | connectTip {N : CDisconnectNode} {hash : uint256} {fAlreadyChecked : Bool}
      (reading : SameReading Z N.Z)
      (checked : fAlreadyChecked = true → ∃ (M : CNode) (pow merkle : Bool),
        SameReading Z M.Z ∧ M.P = N.P ∧ CheckBlock M (B hash) pow merkle = .ok ()) :
      Consistent Z B (.connectTip N hash fAlreadyChecked)
  | disconnectTip {N : CDisconnectNode} : Consistent Z B (.disconnectTip N)

/-- The connection of `entry` on `tip` goes on from the numbers of the tip, and takes all
mints and spends into account. -/
structure GoesOn (Z : Zerocoin) (N : CDisconnectNode) (s : SupplyChain) (entry tip : ChainEntry) :
    Prop where
  base : 3 < tip.pindex.nVersion ∨ ∀ denom, denom ≠ .ZQ_ERROR →
    entry.pindex.mapZerocoinSupply denom = tip.pindex.mapZerocoinSupply denom
  unlisted : N.P.nBlockRecalculateAccumulators ≤ entry.pindex.nHeight →
    Unlisted N.toCNode entry.block
  unlistedBelow : entry.pindex.nHeight = N.P.nBlockRecalculateAccumulators + 1 →
    ∀ hash ∈ s.chainActive, ∀ below, s.mapBlockIndex hash = some below →
      N.P.nZerocoinStartHeight ≤ below.pindex.nHeight → Unlisted N.toCNode below.block
  names : entry.block.nTime ≤ N.P.nZerocoinStartTime → NamesDenominations Z entry.block

def KeepsSupply (Z : Zerocoin) (s : SupplyChain) : SupplyEvent → Prop
  | .connectTip N hash _ => ∀ entry hashTip tip, s.mapBlockIndex hash = some entry →
      s.chainActive.head? = some hashTip → s.mapBlockIndex hashTip = some tip →
        GoesOn Z N s entry tip
  | _ => True

variable {N : CDisconnectNode} {hash hashTip : uint256} {entry tip tip' : ChainEntry}
  {st : ConnectState} {fAlreadyChecked : Bool}

theorem connectTip_cases (s : SupplyChain) (N : CDisconnectNode) (hash : uint256)
    (fAlreadyChecked : Bool) :
    s.ConnectTip N hash fAlreadyChecked = s ∨ ∃ entry hashTip tip tip' st,
      s.mapBlockIndex hash = some entry ∧ s.chainActive.head? = some hashTip ∧
      s.mapBlockIndex hashTip = some tip ∧ entry.block.hashPrevBlock = hashTip ∧
      entry.pindex.nHeight = tip.pindex.nHeight + 1 ∧
      connectLoop N.toCConnectNode entry.block entry.pindex tip.pindex s.pcoinsTip false
        fAlreadyChecked = .ok st ∧
      s.connectIndex N entry.pindex hashTip = some tip' ∧
      s.ConnectTip N hash fAlreadyChecked = s.connectEntry N hash entry tip' st := by
  rw [ConnectTip]
  cases hentry : s.mapBlockIndex hash with
  | none => exact .inl rfl
  | some entry =>
  cases hhead : s.chainActive.head? with
  | none => exact .inl rfl
  | some hashTip =>
  cases htip : (some hashTip).bind s.mapBlockIndex with
  | none => exact .inl rfl
  | some tip =>
  dsimp only
  split_ifs with hguard
  · exact .inl rfl
  obtain ⟨hprev, hguard⟩ := not_or.mp hguard
  obtain ⟨hheight, -⟩ := not_or.mp hguard
  cases hloop : connectLoop N.toCConnectNode entry.block entry.pindex tip.pindex s.pcoinsTip false
      fAlreadyChecked with
  | error _ => exact .inl rfl
  | ok st =>
  cases htip' : s.connectIndex N entry.pindex hashTip with
  | none => exact .inl rfl
  | some tip' =>
    exact .inr ⟨entry, hashTip, tip, tip', st, rfl, rfl, htip, not_not.mp hprev,
      not_not.mp hheight, hloop, htip', rfl⟩

theorem Books.below (h : s.Books Z B) (hhead : s.chainActive.head? = some hashTip)
    (htip : s.mapBlockIndex hashTip = some tip) :
    ∀ hash' ∈ s.chainActive, s.heightOf hash' ≤ tip.pindex.nHeight := by
  intro hash' hmem
  have hself : s.heightOf hashTip = tip.pindex.nHeight := by
    rw [heightOf, htip]
    rfl
  cases hchain : s.chainActive with
  | nil =>
    rw [hchain] at hhead
    cases hhead
  | cons first below =>
    rw [hchain] at hhead hmem
    obtain rfl : first = hashTip := some.inj hhead
    have hfalling := h.falling
    rw [hchain] at hfalling
    rcases mem_cons.mp hmem with rfl | hmem
    · exact hself.le
    · have hlt := (pairwise_cons.mp hfalling).1 hash' hmem
      rw [hself] at hlt
      exact hlt.le

theorem Books.off (h : s.Books Z B) (hentry : s.mapBlockIndex hash = some entry)
    (hhead : s.chainActive.head? = some hashTip) (htip : s.mapBlockIndex hashTip = some tip)
    (hheight : entry.pindex.nHeight = tip.pindex.nHeight + 1) : hash ∉ s.chainActive := by
  intro hmem
  have hle := h.below hhead htip hash hmem
  rw [heightOf, hentry] at hle
  have hle : entry.pindex.nHeight ≤ tip.pindex.nHeight := hle
  omega

theorem Books.connectIndex (h : s.Books Z B) (hread : SameReading Z N.Z)
    (hlist : entry.pindex.nHeight = N.P.nBlockRecalculateAccumulators + 1 →
      ∀ hash ∈ s.chainActive, ∀ below, s.mapBlockIndex hash = some below →
        N.P.nZerocoinStartHeight ≤ below.pindex.nHeight → Unlisted N.toCNode below.block) :
    ∀ hash, AlikeAt s.mapBlockIndex (s.connectIndex N entry.pindex) hash := by
  intro hash
  rw [SupplyChain.connectIndex]
  split_ifs with hrecalculate
  · exact recalculate_alike hread h.blocks h.counts h.proper (hlist hrecalculate) hash
  · exact .of_eq rfl

variable {block : CBlock} {pindex pprev : CBlockIndex}

theorem afterLoop_supply {N : CConnectNode}
    {view : CCoinsView} {c : Connected} (h : afterLoop N block pindex pprev view false st = .ok c) :
    c.pindex.nHeight = pindex.nHeight ∧ ∃ pindex',
      UpdateZDIVITSupply N block pindex (supplyBase N pindex pprev) = .ok pindex' ∧
        c.pindex.mapZerocoinSupply = pindex'.mapZerocoinSupply := by
  simp only [afterLoop, bind_eq_ok] at h
  obtain ⟨pindex', hsupply, h⟩ := h
  simp only [afterSupply, rejectIf_eq_ok, Bool.false_eq_true, if_false] at h
  obtain ⟨-, -, -, h⟩ := h
  cases h
  have hheight : pindex'.nHeight = pindex.nHeight := by
    simp only [UpdateZDIVITSupply, bind_eq_ok] at hsupply
    obtain ⟨supply, -, heq⟩ := hsupply
    cases heq
    rfl
  exact ⟨hheight, pindex', hsupply, rfl⟩

theorem connectLoop_proper {N : CConnectNode}
    {view : CCoinsView} (hread : SameReading Z N.Z)
    (hchecked : fAlreadyChecked = true → ∃ (M : CNode) (pow merkle : Bool),
      SameReading Z M.Z ∧ M.P = N.P ∧ CheckBlock M block pow merkle = .ok ())
    (hnames : block.nTime ≤ N.P.nZerocoinStartTime → NamesDenominations Z block)
    (h : connectLoop N block pindex pprev view false fAlreadyChecked = .ok st) :
    Proper Z block := by
  simp only [connectLoop, rejectIf_eq_ok, bind_eq_ok] at h
  obtain ⟨⟨⟩, hcheck, -, -, -, -, htxs⟩ := h
  have hall := connectTxs_readable htxs
  have hdenoms : NamesDenominations Z block := by
    rcases le_or_gt block.nTime N.P.nZerocoinStartTime with hearly | hlate
    · exact hnames hearly
    have hone : ∃ (M : CNode) (pow merkle : Bool), SameReading Z M.Z ∧ M.P = N.P ∧
        CheckBlock M block pow merkle = .ok () := by
      cases hflag : fAlreadyChecked with
      | true => exact hchecked hflag
      | false =>
        rw [hflag, if_neg Bool.false_ne_true] at hcheck
        exact ⟨N.toCNode, _, _, hread, rfl, hcheck⟩
    obtain ⟨M, pow, merkle, hM, hP, hcheck⟩ := hone
    have hnamed := CheckBlock_names hcheck (hP ▸ hlate)
    intro tx htx hspend txin hmem hz spend hs
    exact hnamed tx htx hspend txin hmem hz spend (hM.spend ▸ hs)
  refine ⟨?_, ?_⟩
  · intro tx htx txout hmem hz
    rw [← coin_reading hread]
    exact (hall tx htx).1 txout hmem hz
  · intro tx htx hspend txin hmem hz
    obtain ⟨spend, hs⟩ := isSome_iff_exists.mp ((hall tx htx).2 hspend txin hmem hz)
    rw [hread.spend] at hs
    exact ⟨spend, hs, hdenoms tx htx hspend txin hmem hz spend hs⟩

section
variable (h : s.Books Z B) (reading : SameReading Z N.Z)
  (hentry : s.mapBlockIndex hash = some entry) (hhead : s.chainActive.head? = some hashTip)
  (htip : s.mapBlockIndex hashTip = some tip)
include h reading hentry hhead htip

theorem Books.connected (hgoes : GoesOn Z N s entry tip)
    (hlike : Alike tip tip') (hproper : Proper Z (B hash)) {M : CConnectNode} (hZ : M.Z = N.Z)
    (hP : M.P = N.P) (hlist : Unlisted N.toCNode entry.block → Unlisted M.toCNode entry.block)
    {pindex' base : CBlockIndex} (hversion : base.nVersion = tip'.pindex.nVersion)
    (hbase : base.mapZerocoinSupply = tip'.pindex.mapZerocoinSupply)
    (hsupply : UpdateZDIVITSupply M entry.block entry.pindex base = .ok pindex') :
    ∀ denom, denom ≠ .ZQ_ERROR →
      pindex'.mapZerocoinSupply denom = supplyOf Z ((hash :: s.chainActive).map B) denom ∧
        0 ≤ pindex'.mapZerocoinSupply denom := by
  intro denom hdenom
  have hblock : entry.block = B hash := h.blocks hash entry hentry
  have hread : SameReading Z M.Z := hZ ▸ reading
  -- the tip counts
  have htipCount : tip.pindex.mapZerocoinSupply denom = supplyOf Z (s.chainActive.map B) denom ∧
      0 ≤ tip.pindex.mapZerocoinSupply denom := by
    cases hchain : s.chainActive with
    | nil =>
      rw [hchain] at hhead
      cases hhead
    | cons first below =>
      rw [hchain] at hhead
      obtain rfl : first = hashTip := some.inj hhead
      obtain ⟨e, he, hcount⟩ := h.counts first below (hchain ▸ suffix_rfl)
      obtain rfl : tip = e := some.inj (htip.symm.trans he)
      exact hcount denom hdenom
  -- and the block goes on from there
  have hstart : (if 3 < base.nVersion then base.mapZerocoinSupply
      else entry.pindex.mapZerocoinSupply) denom = tip.pindex.mapZerocoinSupply denom := by
    rw [hversion, hbase, hlike.version]
    rcases hgoes.base with hv | heq
    · rw [if_pos hv]
      exact hlike.supply denom hdenom
    · split_ifs with hv
      · exact hlike.supply denom hdenom
      · exact heq denom hdenom
  have hcounts := UpdateZDIVITSupply_counts hread (hblock ▸ hproper) (by
    intro hfilter
    rw [hP] at hfilter
    exact hlist (hgoes.unlisted (of_decide_eq_true hfilter))) hsupply hstart htipCount.2
  rw [htipCount.1, hblock] at hcounts
  rw [map_cons, supplyOf_cons]
  exact hcounts

theorem Books.connectEntry (hprev : entry.block.hashPrevBlock = hashTip)
    (hheight : entry.pindex.nHeight = tip.pindex.nHeight + 1) (hgoes : GoesOn Z N s entry tip)
    (htip' : s.connectIndex N entry.pindex hashTip = some tip') (hoff : hash ∉ s.chainActive)
    (hproper : Proper Z (B hash)) : (s.connectEntry N hash entry tip' st).Books Z B := by
  have hblock : entry.block = B hash := h.blocks hash entry hentry
  have halike := h.connectIndex reading hgoes.unlistedBelow
  have hindex : (SupplyChain.mk (s.connectIndex N entry.pindex) s.chainActive s.pcoinsTip).Books
      Z B := by
    refine h.alike (fun hash' _ => halike hash') ?_
    intro hash' e he
    obtain ⟨e₀, he₀, hlike⟩ := (halike hash').of_some' he
    exact hlike.block.trans (h.blocks hash' e₀ he₀)
  have hlike : Alike tip tip' := by
    obtain ⟨e, he, hlike⟩ := (halike hashTip).of_some htip
    rw [htip'] at he
    cases he
    exact hlike
  rw [SupplyChain.connectEntry]
  split
  case h_1 => exact hindex.update hoff hblock
  case h_2 c hc =>
    obtain ⟨hsame, pindex', hsupply, hnumbers⟩ := afterLoop_supply hc
    have hcounts := h.connected reading hentry hhead htip hgoes hlike hproper
      (M := { N.toCConnectNode with
        recalculated := fun pprev => ((N.recalculated pprev).1, tip'.pindex.mapZerocoinSupply) })
      rfl rfl (fun hl => ⟨hl.inputs, hl.outputs, hl.serials⟩) (by
        rw [supplyBase]
        split_ifs <;> rfl) (by
        rw [supplyBase]
        split_ifs <;> rfl) hsupply
    have hnew : (SupplyChain.mk (Function.update (s.connectIndex N entry.pindex) hash
        (some ⟨entry.block, c.pindex⟩)) s.chainActive c.view).Books Z B := hindex.update hoff hblock
    have hself : Function.update (s.connectIndex N entry.pindex) hash (some ⟨entry.block, c.pindex⟩)
        hash = some ⟨entry.block, c.pindex⟩ := update_self _ _ _
    refine hnew.push hself hproper ?_ ?_ ?_
    · intro first hfirst
      obtain rfl : hashTip = first := some.inj (hhead.symm.trans hfirst)
      rw [← hblock]
      exact hprev
    · intro hash' hmem
      have hother : hash' ≠ hash := by
        rintro rfl
        exact hoff hmem
      have hle := h.below hhead htip hash' hmem
      have hsameHeight : (SupplyChain.mk (Function.update (s.connectIndex N entry.pindex) hash
          (some ⟨entry.block, c.pindex⟩)) s.chainActive c.view).heightOf hash' =
            s.heightOf hash' := by
        refine heightOf_alike ?_
        have hl := halike hash'
        rw [AlikeAt, update_of_ne hother]
        exact hl
      rw [hsameHeight]
      rw [hsame]
      omega
    · intro denom hdenom
      rw [hnumbers]
      exact hcounts denom hdenom

end

theorem connectTip_books (h : s.Books Z B)
    (hok : Consistent Z B (.connectTip N hash fAlreadyChecked))
    (hkeeps : KeepsSupply Z s (.connectTip N hash fAlreadyChecked)) :
    (s.ConnectTip N hash fAlreadyChecked).Books Z B := by
  obtain ⟨reading, checked⟩ : SameReading Z N.Z ∧ _ := by
    cases hok with
    | connectTip reading checked => exact ⟨reading, checked⟩
  rcases connectTip_cases s N hash fAlreadyChecked with
    hsame | ⟨entry, hashTip, tip, tip', st, hentry, hhead, htip, hprev, hheight, hloop, htip', hs'⟩
  · rw [hsame]
    exact h
  rw [hs']
  have hgoes : GoesOn Z N s entry tip := hkeeps entry hashTip tip hentry hhead htip
  have hblock : entry.block = B hash := h.blocks hash entry hentry
  have hoff : hash ∉ s.chainActive := h.off hentry hhead htip hheight
  have hproper : Proper Z (B hash) := by
    rw [← hblock]
    rw [← hblock] at checked
    exact connectLoop_proper reading checked hgoes.names hloop
  exact h.connectEntry reading hentry hhead htip hprev hheight hgoes htip' hoff hproper

theorem disconnectTip_books (h : s.Books Z B) : (s.DisconnectTip N).Books Z B := by
  rw [SupplyChain.DisconnectTip]
  split
  case h_2 => exact h
  case h_1 hash hashPrev below hchain =>
    split
    case h_2 => exact h
    case h_1 tip prev htip hprev =>
      split
      case h_2 => exact h
      case h_1 view hdisconnect =>
        have hsuffix : (hashPrev :: below) <:+ s.chainActive :=
          hchain ▸ suffix_cons hash (hashPrev :: below)
        exact ⟨h.blocks, h.counts.suffix hsuffix,
          fun hash' hmem => h.proper hash' (hsuffix.mem hmem),
          h.linked.suffix hsuffix, h.falling.sublist hsuffix.sublist⟩

theorem addToBlockIndex_books {pindex : CBlockIndex} (h : s.Books Z B)
    (hnamed : B block.hash = block) : (s.AddToBlockIndex block pindex).Books Z B := by
  rw [SupplyChain.AddToBlockIndex]
  cases hentry : s.mapBlockIndex block.hash with
  | some entry => exact h
  | none =>
    have hoff : block.hash ∉ s.chainActive := by
      intro hmem
      obtain ⟨above, below, hchain⟩ := append_of_mem hmem
      obtain ⟨entry, he, -⟩ := h.counts block.hash below ⟨above, hchain.symm⟩
      rw [hentry] at he
      cases he
    exact h.update hoff hnamed.symm

theorem keepsSupply_step (e : SupplyEvent) (h : s.Books Z B)
    (hok : Consistent Z B e ∧ KeepsSupply Z s e) : (supplyStep s e).Books Z B := by
  cases e with
  | addToBlockIndex block pindex =>
    cases hok.1 with
    | addToBlockIndex hnamed => exact addToBlockIndex_books h hnamed
  | connectTip N hash fAlreadyChecked => exact connectTip_books h hok.1 hok.2
  | disconnectTip N => exact disconnectTip_books h

/-! ## A block that comes back -/

theorem supplyStep_bottom (e : SupplyEvent) :
    (supplyStep s e).chainActive.getLast? = s.chainActive.getLast? := by
  cases e with
  | addToBlockIndex block pindex =>
    show (s.AddToBlockIndex block pindex).chainActive.getLast? = _
    rw [SupplyChain.AddToBlockIndex]
    split
    · rfl
    · rfl
  | disconnectTip N =>
    show (s.DisconnectTip N).chainActive.getLast? = _
    rw [SupplyChain.DisconnectTip]
    split
    case h_2 => rfl
    case h_1 hash hashPrev below hchain =>
      split
      case h_2 => rfl
      case h_1 =>
        split
        · rw [hchain]
          rfl
        · rfl
  | connectTip N hash fAlreadyChecked =>
    show (s.ConnectTip N hash fAlreadyChecked).chainActive.getLast? = _
    rcases connectTip_cases s N hash fAlreadyChecked with
      hsame | ⟨entry, hashTip, tip, tip', st, -, hhead, -, -, -, -, -, hs'⟩
    · rw [hsame]
    rw [hs', SupplyChain.connectEntry]
    split
    · rfl
    · cases hchain : s.chainActive with
      | nil =>
        rw [hchain] at hhead
        cases hhead
      | cons first below => rfl

theorem below_unique {back : uint256 → uint256} {root : uint256} : ∀ {l l' : List uint256}
    {hash : uint256}, (hash :: l).IsChain (fun a b => back a = b) →
    (hash :: l').IsChain (fun a b => back a = b) → (hash :: l).Nodup → (hash :: l').Nodup →
    (hash :: l).getLast? = some root → (hash :: l').getLast? = some root → l = l'
  | [], [], _, _, _, _, _, _, _ => rfl
  | [], b :: l', hash, _, _, _, hnodup, hlast, hlast' => by
    obtain rfl : hash = root := some.inj hlast
    rw [List.getLast?_cons_cons] at hlast'
    exact absurd (mem_of_getLast? hlast') (nodup_cons.mp hnodup).1
  | a :: l, [], hash, _, _, hnodup, _, hlast, hlast' => by
    obtain rfl : hash = root := some.inj hlast'
    rw [List.getLast?_cons_cons] at hlast
    exact absurd (mem_of_getLast? hlast) (nodup_cons.mp hnodup).1
  | a :: l, b :: l', hash, hlink, hlink', hnodup, hnodup', hlast, hlast' => by
    obtain ⟨ha, hlink⟩ := isChain_cons_cons.mp hlink
    obtain ⟨hb, hlink'⟩ := isChain_cons_cons.mp hlink'
    obtain rfl : a = b := ha.symm.trans hb
    rw [List.getLast?_cons_cons] at hlast hlast'
    rw [below_unique hlink hlink' (nodup_cons.mp hnodup).2 (nodup_cons.mp hnodup').2 hlast hlast']

theorem Books.nodup (h : s.Books Z B) : s.chainActive.Nodup :=
  h.falling.imp fun hlt heq => absurd (heq ▸ hlt) (lt_irrefl _)

theorem Books.same {s' : SupplyChain} (h : s.Books Z B) (h' : s'.Books Z B)
    (hroot : s'.chainActive.getLast? = s.chainActive.getLast?) {entry' : ChainEntry}
      (hmem : hash ∈ s.chainActive) (hmem' : hash ∈ s'.chainActive)
    (hentry : s.mapBlockIndex hash = some entry) (hentry' : s'.mapBlockIndex hash = some entry') :
    ∀ denom, denom ≠ .ZQ_ERROR →
      entry.pindex.mapZerocoinSupply denom = entry'.pindex.mapZerocoinSupply denom := by
  intro denom hdenom
  obtain ⟨above, below, hchain⟩ := append_of_mem hmem
  obtain ⟨above', below', hchain'⟩ := append_of_mem hmem'
  have hsuffix : (hash :: below) <:+ s.chainActive := ⟨above, hchain.symm⟩
  have hsuffix' : (hash :: below') <:+ s'.chainActive := ⟨above', hchain'.symm⟩
  have hlast : s.chainActive.getLast? = (hash :: below).getLast? := by
    rw [hchain, List.getLast?_append_of_ne_nil _ (cons_ne_nil hash below)]
  have hlast' : s'.chainActive.getLast? = (hash :: below').getLast? := by
    rw [hchain', List.getLast?_append_of_ne_nil _ (cons_ne_nil hash below')]
  have hroot' : (hash :: below').getLast? = (hash :: below).getLast? :=
    hlast'.symm.trans (hroot.trans hlast)
  obtain rfl : below = below' := below_unique (h.linked.suffix hsuffix) (h'.linked.suffix hsuffix')
    (h.nodup.sublist hsuffix.sublist) (h'.nodup.sublist hsuffix'.sublist)
    (List.getLast?_eq_some_getLast (cons_ne_nil hash below))
    (hroot'.trans (List.getLast?_eq_some_getLast (cons_ne_nil hash below)))
  obtain ⟨e, he, hcount⟩ := h.counts hash below hsuffix
  obtain ⟨e', he', hcount'⟩ := h'.counts hash below hsuffix'
  obtain rfl : entry = e := some.inj (hentry.symm.trans he)
  obtain rfl : entry' = e' := some.inj (hentry'.symm.trans he')
  exact (hcount denom hdenom).1.trans (hcount' denom hdenom).1.symm

/-- **The supplies count the chain.**  In every run whose connections go on from the numbers
of the tip and leave no mint and no spend out, each block of the chain has the mints less
the spends up to it, none below zero; and a block that comes back has the numbers it had. -/
theorem supplies_count_chain (Z : Zerocoin) (B : uint256 → CBlock) (s : SupplyChain)
    (hs : s.Books Z B) (events : List SupplyEvent) (hconsistent : ∀ e ∈ events, Consistent Z B e)
    (hkeeps : Guarded supplyStep (KeepsSupply Z) s events) :
    Throughout supplyStep (fun s => Counts Z B s.mapBlockIndex s.chainActive) s events ∧
      ∀ past past', past <+: events → past' <+: events → ∀ hash entry entry',
        hash ∈ (past.foldl supplyStep s).chainActive →
        hash ∈ (past'.foldl supplyStep s).chainActive →
        (past.foldl supplyStep s).mapBlockIndex hash = some entry →
        (past'.foldl supplyStep s).mapBlockIndex hash = some entry' →
        ∀ denom, denom ≠ .ZQ_ERROR →
          entry.pindex.mapZerocoinSupply denom = entry'.pindex.mapZerocoinSupply denom := by
  have hbooks : Throughout supplyStep (fun s => s.Books Z B) s events :=
    throughout_of_guarded (fun s e h hok => keepsSupply_step e h hok) hs
      ((guarded_of_forall hconsistent).and hkeeps)
  refine ⟨fun past hpast => (hbooks past hpast).counts, ?_⟩
  intro past past' hpast hpast' hash entry entry'
  have hbottom : ∀ is : List SupplyEvent,
      (is.foldl supplyStep s).chainActive.getLast? = s.chainActive.getLast? := by
    intro is
    have hall : Guarded supplyStep (fun _ _ => True) s is :=
      guarded_of_forall (p := fun _ => True) fun _ _ => trivial
    exact run_inv (I := fun t : SupplyChain => t.chainActive.getLast? = s.chainActive.getLast?)
      (fun _ e h _ => (supplyStep_bottom e).trans h) rfl hall
  exact (hbooks past hpast).same (hbooks past' hpast') ((hbottom past').trans (hbottom past).symm)

/-! ## The first block with zerocoins, for example -/

section
open ZerocoinChain (zerocoinNode lastByteZerocoin mintBlock mintOf mintStart)

/-- A chain of one block, of a given version and without transactions. -/
def firstTip (nVersion : Int) : SupplyChain where
  mapBlockIndex hash :=
    if hash = 100 then
      some ⟨⟨100, nVersion, 0, 1600000000, [], []⟩,
        { quietTip 1000000 with nVersion := nVersion, mapZerocoinSupply := fun _ => 0 }⟩
    else none
  chainActive := [100]
  pcoinsTip := mintStart.pcoinsTip

def mintNode : CDisconnectNode :=
  { (zerocoinNode true 100 1000000).toCDisconnectNode with Z := lastByteZerocoin }

def firstMints : CBlock := mintBlock [mintOf 1, mintOf 2]

def mintTwice : List SupplyEvent :=
  [.addToBlockIndex firstMints (quietTip 0), .connectTip mintNode 101 false,
    .disconnectTip mintNode, .connectTip mintNode 101 false]

def mintBlocks (nVersion : Int) (hash : uint256) : CBlock :=
  if hash = 101 then firstMints else ⟨100, nVersion, 0, 1600000000, [], []⟩

theorem firstTip_books (nVersion : Int) :
    (firstTip nVersion).Books lastByteZerocoin (mintBlocks nVersion) where
  blocks hash entry hentry := by
    have hentry : (if hash = 100 then _ else none) = some entry := hentry
    split_ifs at hentry with hhash
    cases hentry
    obtain rfl := hhash
    rfl
  counts hash below hsuffix := by
    have hone : (hash :: below) <:+ [100] := hsuffix
    rcases suffix_cons_iff.mp hone with heq | hnil
    · obtain ⟨rfl, rfl⟩ := cons.inj heq
      exact ⟨_, rfl, fun denom _ => ⟨rfl, le_refl 0⟩⟩
    · exact absurd (suffix_nil.mp hnil) (cons_ne_nil hash below)
  proper hash hmem := by
    obtain rfl : hash = 100 := mem_singleton.mp hmem
    exact ⟨nofun, nofun⟩
  linked := isChain_singleton 100
  falling := pairwise_singleton _ 100

theorem mintTwice_consistent (nVersion : Int) :
    ∀ e ∈ mintTwice, Consistent lastByteZerocoin (mintBlocks nVersion) e := by
  intro e he
  rcases mem_cons.mp he with rfl | he
  · exact .addToBlockIndex rfl
  rcases mem_cons.mp he with rfl | he
  · exact .connectTip ⟨rfl, rfl⟩ (by simp)
  rcases mem_cons.mp he with rfl | he
  · exact .disconnectTip
  · obtain rfl := mem_singleton.mp he
    exact .connectTip ⟨rfl, rfl⟩ (by simp)

theorem keepsSupply_mint {s : SupplyChain} {fAlreadyChecked : Bool}
    (hhead : s.chainActive.head? = some 100)
    (hversion : (s.mapBlockIndex 100).map (fun tip => tip.pindex.nVersion) = some 4)
    (htime : (s.mapBlockIndex 101).map (fun entry => entry.block.nTime) = some 1700000060) :
    KeepsSupply lastByteZerocoin s (.connectTip mintNode 101 fAlreadyChecked) := by
  intro entry hashTip tip hentry htipHash htip
  obtain rfl : 100 = hashTip := some.inj (hhead.symm.trans htipHash)
  rw [htip] at hversion
  rw [hentry] at htime
  have hfour : tip.pindex.nVersion = 4 := some.inj hversion
  have hlate : entry.block.nTime = 1700000060 := some.inj htime
  refine ⟨.inl ?_, fun _ => ?_, fun _ _ _ below _ _ => ?_, ?_⟩
  · rw [hfour]
    decide
  · exact ⟨fun _ _ _ _ => rfl, fun _ _ _ => rfl, fun _ _ _ _ _ _ => rfl⟩
  · exact ⟨fun _ _ _ _ => rfl, fun _ _ _ => rfl, fun _ _ _ _ _ _ => rfl⟩
  · rw [hlate]
    intro hearly
    exact absurd hearly (by decide)

theorem supplies_count_chain_on_version_four :
    Throughout supplyStep
        (fun s => Counts lastByteZerocoin (mintBlocks 4) s.mapBlockIndex s.chainActive)
        (firstTip 4) mintTwice ∧
      (mintTwice.foldl supplyStep (firstTip 4)).chainActive = [101, 100] := by
  refine ⟨(supplies_count_chain lastByteZerocoin (mintBlocks 4) (firstTip 4)
    (firstTip_books 4) mintTwice (mintTwice_consistent 4)
    ⟨trivial, ?_, trivial, ?_, trivial⟩).1, by decide +kernel⟩
  · exact keepsSupply_mint (by decide +kernel) (by decide +kernel) (by decide +kernel)
  · exact keepsSupply_mint (by decide +kernel) (by decide +kernel) (by decide +kernel)

/-- On a block of version three the mints are counted once more when the block comes back. -/
theorem supply_counts_twice :
    ¬ (∀ (Z : Zerocoin) (B : uint256 → CBlock) (s : SupplyChain), s.Books Z B →
        ∀ events : List SupplyEvent, (∀ e ∈ events, Consistent Z B e) →
          Throughout supplyStep (fun s => Counts Z B s.mapBlockIndex s.chainActive) s events) ∧
      ((mintTwice.foldl supplyStep (firstTip 3)).mapBlockIndex 101).map
        (fun entry => entry.pindex.mapZerocoinSupply .ZQ_ONE) = some 4 := by
  have hfour : ((mintTwice.foldl supplyStep (firstTip 3)).mapBlockIndex 101).map
      (fun entry => entry.pindex.mapZerocoinSupply .ZQ_ONE) = some 4 := by decide +kernel
  refine ⟨?_, hfour⟩
  intro hall
  have hcounts := hall lastByteZerocoin (mintBlocks 3) (firstTip 3) (firstTip_books 3)
    mintTwice (mintTwice_consistent 3) mintTwice (prefix_refl _)
  have hchain : (mintTwice.foldl supplyStep (firstTip 3)).chainActive = [101, 100] := by
    decide +kernel
  obtain ⟨entry, hentry, hcount⟩ := hcounts 101 [100] (hchain ▸ suffix_rfl)
  rw [hentry] at hfour
  have hstored : entry.pindex.mapZerocoinSupply .ZQ_ONE = 4 := some.inj hfour
  exact absurd (hstored.symm.trans (hcount .ZQ_ONE (by decide)).1) (by decide +kernel)

end

end SupplyChain

end Divitae
