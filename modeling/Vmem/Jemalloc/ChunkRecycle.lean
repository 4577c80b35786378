import Vmem.Jemalloc.TreeSections

/-!
# Taking a range out of the free trees

The first locked section of `chunk_recycle` unlinks the smallest extent that is
large enough and puts its leading part back; the second one, which may be
entered after the lock was dropped, links the trailing part.
-/

namespace Vmem
namespace Jemalloc

variable {c : Config} {p : Pool}

/-- A request `chunk_recycle` is made with: nonzero multiples of the chunk
size, the alignment a power of two, all of them words. -/
structure Request (c : Config) (size alignment : Nat) : Prop where
  nonempty : 0 < size
  size_dvd : c.chunksize ∣ size
  size_lt : size < Word.modulus
  power : ∃ k, c.lgChunk ≤ k ∧ k < 64 ∧ alignment = 2 ^ k

namespace Request

variable {size alignment : Nat}

theorem alignment_pos (request : Request c size alignment) : 0 < alignment := by
  obtain ⟨k, _, _, rfl⟩ := request.power
  exact Nat.two_pow_pos k

theorem alignment_dvd (request : Request c size alignment) : c.chunksize ∣ alignment := by
  obtain ⟨k, le, _, rfl⟩ := request.power
  exact Nat.pow_dvd_pow 2 le

theorem alignment_lt (request : Request c size alignment) : alignment < Word.modulus := by
  obtain ⟨k, _, lt, rfl⟩ := request.power
  exact Nat.pow_lt_pow_right (by norm_num) lt

theorem chunksize_le_size (request : Request c size alignment) : c.chunksize ≤ size :=
  Nat.le_of_dvd request.nonempty request.size_dvd

theorem chunksize_le_alignment (request : Request c size alignment) :
    c.chunksize ≤ alignment :=
  Nat.le_of_dvd request.alignment_pos request.alignment_dvd

/-- Chunk alignment is always possible. -/
theorem of_chunksize (nonempty : 0 < size) (size_dvd : c.chunksize ∣ size)
    (size_lt : size < Word.modulus) : Request c size c.chunksize where
  nonempty := nonempty
  size_dvd := size_dvd
  size_lt := size_lt
  power := ⟨c.lgChunk, le_rfl, by have := c.chunk_le; omega, rfl⟩

end Request

/-- Past the check for wrap-around, the allocation size is the true sum.  The
sum may still reach the modulus exactly, and then the difference wraps back. -/
theorem allocSize_eq {size alignment : Nat} (request : Request c size alignment)
    (passes : ¬Word.sub (Word.add size alignment) c.chunksize < size) :
    Word.sub (Word.add size alignment) c.chunksize = size + alignment - c.chunksize := by
  have sizeLt := request.size_lt
  have alignmentLt := request.alignment_lt
  have chunkLe := request.chunksize_le_size
  have chunkPos := c.chunksize_pos
  have alignmentLe := request.chunksize_le_alignment
  rcases Nat.lt_or_ge (size + alignment) Word.modulus with fits | wraps
  · rw [Word.add_eq fits, Word.sub_eq (by omega) fits]
  · rw [Word.add_eq_of_wraps sizeLt alignmentLt wraps] at passes ⊢
    have divides : c.chunksize ∣ size + alignment - Word.modulus :=
      Nat.dvd_sub (Nat.dvd_add request.size_dvd request.alignment_dvd)
        c.chunksize_dvd_modulus
    rcases Nat.eq_zero_or_pos (size + alignment - Word.modulus) with zero | positive
    · rw [zero, Word.sub_eq_of_lt chunkPos (by omega)]
      omega
    · have := Nat.le_of_dvd positive divides
      rw [Word.sub_eq this (by omega)] at passes
      omega

/-- Where a range was taken from: the extent and the length of the part of it
that comes first. -/
structure TakenFrom (c : Config) (p : Pool) (newAddr size alignment : Nat)
    (taken : Taken) (n lead : Nat) : Prop where
  member : n ∈ p.chunksAd
  parts : (p.node n).size = lead + size + taken.trailsize
  start : taken.ret = (p.node n).addr + lead
  lead_le : lead ≤ alignment - c.chunksize
  lead_dvd : c.chunksize ∣ lead
  trail_dvd : c.chunksize ∣ taken.trailsize
  aligned : alignment ∣ taken.ret
  wanted : newAddr ≠ 0 → (p.node n).addr = newAddr
  zeroed : taken.zeroed = (p.node n).zeroed
  outcome :
    (lead = 0 ∧ taken.node = some n ∧ taken.pool = unlink p n) ∨
      (lead ≠ 0 ∧ taken.node = none ∧
        taken.pool = link (unlink p n) n { p.node n with size := lead })

/-- The range is taken from the extent the search finds. -/
theorem chunkRecycleTake_found {newAddr size alignment : Nat} {taken : Taken}
    (trees : FreeTrees c p) (request : Request c size alignment)
    (found : chunkRecycleTake p newAddr size alignment
      (size + alignment - c.chunksize) = some taken) :
    ∃ n lead, OrderedTree.nsearch (fun m => (p.node m).szadKey)
        (toLex (size + alignment - c.chunksize, newAddr)) p.chunksSzad = some n ∧
      TakenFrom c p newAddr size alignment taken n lead := by
  unfold chunkRecycleTake at found
  cases searched : OrderedTree.nsearch (fun m => (p.node m).szadKey)
      (toLex (size + alignment - c.chunksize, newAddr)) p.chunksSzad with
  | none => simp [searched] at found
  | some n =>
      obtain ⟨inSzad, large⟩ := OrderedTree.nsearch_some searched
      have member := trees.mem_szad.mp inSzad
      have extent := trees.extent n member
      -- the order is lexicographic, so the extent is at least as long as asked
      have longEnough : size + alignment - c.chunksize ≤ (p.node n).size := by
        rcases Prod.Lex.le_iff.mp large with less | ⟨equal, _⟩
        · exact le_of_lt less
        · exact le_of_eq equal
      have below := extent.below
      have chunkLe := request.chunksize_le_size
      have alignmentLe := request.chunksize_le_alignment
      have alignmentPos := request.alignment_pos
      have fits : (p.node n).addr + (alignment - 1) < Word.modulus := by omega
      have lower := Word.le_ceil alignmentPos fits
      have upper := Word.ceil_le_add_sub request.alignment_dvd alignmentPos
        extent.addr_dvd fits
      have ceilAligned := Word.dvd_ceil (p.node n).addr alignment
      generalize ceiling : Word.ceil (p.node n).addr alignment = start at *
      have leadEq : Word.sub start (p.node n).addr = start - (p.node n).addr :=
        Word.sub_eq lower (by omega)
      have restEq : Word.sub (p.node n).size (start - (p.node n).addr) =
          (p.node n).size - (start - (p.node n).addr) :=
        Word.sub_eq (by omega) (by omega)
      have trailEq : Word.sub ((p.node n).size - (start - (p.node n).addr)) size =
          (p.node n).size - (start - (p.node n).addr) - size :=
        Word.sub_eq (by omega) (by omega)
      have retEq : Word.add (p.node n).addr (start - (p.node n).addr) = start := by
        rw [Word.add_eq (by omega)]
        omega
      have leadDvd : c.chunksize ∣ start - (p.node n).addr :=
        Nat.dvd_sub (request.alignment_dvd.trans ceilAligned) extent.addr_dvd
      have trailDvd : c.chunksize ∣
          (p.node n).size - (start - (p.node n).addr) - size :=
        Nat.dvd_sub (Nat.dvd_sub extent.size_dvd leadDvd) request.size_dvd
      simp only [searched, ceiling, leadEq, restEq, trailEq, retEq] at found
      split at found
      · simp at found
      · next accepted =>
          have wanted : newAddr ≠ 0 → (p.node n).addr = newAddr := by
            intro given
            by_contra other
            exact accepted ⟨given, other⟩
          refine ⟨n, start - (p.node n).addr, rfl, ?_⟩
          split at found
          · next leads =>
              injection found with found
              subst found
              exact {
                member := member
                parts := by
                  dsimp only
                  omega
                start := by
                  dsimp only
                  omega
                lead_le := by omega
                lead_dvd := leadDvd
                trail_dvd := trailDvd
                aligned := ceilAligned
                wanted := wanted
                zeroed := rfl
                outcome := Or.inr ⟨leads, rfl, rfl⟩ }
          · next leads =>
              injection found with found
              subst found
              exact {
                member := member
                parts := by
                  dsimp only
                  omega
                start := by
                  dsimp only
                  omega
                lead_le := by omega
                lead_dvd := leadDvd
                trail_dvd := trailDvd
                aligned := ceilAligned
                wanted := wanted
                zeroed := rfl
                outcome := Or.inl ⟨not_not.mp leads, rfl, rfl⟩ }

theorem chunkRecycleTake_some {newAddr size alignment : Nat} {taken : Taken}
    (trees : FreeTrees c p) (request : Request c size alignment)
    (found : chunkRecycleTake p newAddr size alignment
      (size + alignment - c.chunksize) = some taken) :
    ∃ n lead, TakenFrom c p newAddr size alignment taken n lead := by
  obtain ⟨n, lead, _, source⟩ := chunkRecycleTake_found trees request found
  exact ⟨n, lead, source⟩

namespace TakenFrom

variable {newAddr size alignment n lead : Nat} {taken : Taken}

/-- With chunk alignment there is no leading part. -/
theorem lead_eq_zero
    (source : TakenFrom c p newAddr size c.chunksize taken n lead) : lead = 0 := by
  have := source.lead_le
  omega

/-- A request for an address gets that address. -/
theorem ret_eq (source : TakenFrom c p newAddr size c.chunksize taken n lead)
    (given : newAddr ≠ 0) : taken.ret = newAddr := by
  rw [source.start, source.lead_eq_zero, source.wanted given, Nat.add_zero]

/-- The range and its trailing part end where the extent ends. -/
theorem end_eq (source : TakenFrom c p newAddr size alignment taken n lead) :
    taken.ret + size + taken.trailsize = (p.node n).addr + (p.node n).size := by
  rw [source.start, source.parts]
  omega

theorem ret_dvd (source : TakenFrom c p newAddr size alignment taken n lead)
    (request : Request c size alignment) : c.chunksize ∣ taken.ret :=
  request.alignment_dvd.trans source.aligned

/-- What is left of the extent is a valid extent. -/
theorem lead_valid (source : TakenFrom c p newAddr size alignment taken n lead)
    (trees : FreeTrees c p) (leads : lead ≠ 0) :
    ExtentValid c { p.node n with size := lead } := by
  have extent := trees.extent n source.member
  have parts := source.parts
  have below := extent.below
  exact {
    nonempty := Nat.pos_of_ne_zero leads
    size_dvd := source.lead_dvd
    addr_dvd := extent.addr_dvd
    below := by
      dsimp only
      omega }

/-- The first section takes the range and what follows it out of the free set. -/
theorem take_section (source : TakenFrom c p newAddr size alignment taken n lead)
    (trees : FreeTrees c p) :
    TreeSection c p taken.pool [] taken.node.toList []
      [⟨taken.ret, size + taken.trailsize⟩] := by
  have member := source.member
  have first := unlink_section trees member
  rcases source.outcome with ⟨zero, node_eq, pool_eq⟩ | ⟨leads, node_eq, pool_eq⟩
  · rw [node_eq, pool_eq]
    apply first.change_spans
    intro x
    rw [source.start, zero, Nat.add_zero, ExtentNode.span, source.parts, zero,
      Nat.zero_add]
  · rw [node_eq, pool_eq]
    have absent : n ∉ (unlink p n).chunksAd := fun inRest =>
      ((OrderedTree.mem_remove trees.nodupAd).mp inRest).1 rfl
    have second := link_section first.trees absent (source.lead_valid trees leads)
      (by
        intro m inRest
        obtain ⟨different, inTree⟩ := (OrderedTree.mem_remove trees.nodupAd).mp inRest
        have parts := source.parts
        change (p.node m).addr + (p.node m).size ≤ (p.node n).addr ∨
          (p.node n).addr + lead ≤ (p.node m).addr
        rcases Nat.lt_trichotomy (p.node m).addr (p.node n).addr with
          less | equal | greater
        · exact Or.inl (trees.disjoint m inTree n member less)
        · exact absurd (trees.eq_of_addr inTree member equal) different
        · have := trees.disjoint n member m inTree greater
          omega)
    -- the node goes out and comes back in
    have both := (first.trans second).return_node member
    apply both.change_spans
    intro x
    have cut := Span.ind_add (p.node n).addr lead (size + taken.trailsize) x
    have parts : (p.node n).size = lead + (size + taken.trailsize) := by
      rw [source.parts, Nat.add_assoc]
    simp only [ExtentNode.span, List.nil_append, List.append_nil, cover_cons,
      cover_nil, parts, cut]
    rw [source.start]
    omega

/-- Taking a range keeps coalescing complete. -/
theorem take_coalesced (source : TakenFrom c p newAddr size alignment taken n lead)
    (trees : FreeTrees c p) (nonempty : 0 < size) (coalesced : Coalesced p) :
    Coalesced taken.pool := by
  have member := source.member
  rcases source.outcome with ⟨_, _, pool_eq⟩ | ⟨leads, _, pool_eq⟩
  · rw [pool_eq]
    intro a aMember b bMember
    exact coalesced a (OrderedTree.mem_of_mem_remove aMember)
      b (OrderedTree.mem_of_mem_remove bMember)
  · rw [pool_eq]
    intro a aMember b bMember
    have old : ∀ m, m ∈ (link (unlink p n) n
        { p.node n with size := lead }).chunksAd → m ∈ p.chunksAd := by
      intro m inTree
      rcases OrderedTree.mem_insert.mp inTree with rfl | rest
      · exact member
      · exact OrderedTree.mem_of_mem_remove rest
    have atNode := link_node_self (unlink p n) n { p.node n with size := lead }
    have addrSame : ∀ m, ((link (unlink p n) n
        { p.node n with size := lead }).node m).addr = (p.node m).addr := by
      intro m
      by_cases isNode : m = n
      · rw [isNode, atNode]
      · rw [link_node_of_ne (unlink p n) _ isNode]
        rfl
    rw [addrSame a, addrSame b]
    by_cases aIs : a = n
    · subst aIs
      rw [atNode]
      dsimp only
      -- nothing starts inside the old extent
      intro meets
      have parts := source.parts
      have less : (p.node a).addr < (p.node b).addr := by omega
      have := trees.disjoint a member b (old b bMember) less
      omega
    · rw [link_node_of_ne (unlink p n) _ aIs]
      exact coalesced a (old a aMember) b (old b bMember)

end TakenFrom

/-! ## Linking the trailing part -/

theorem chunkRecycleTrail_eq_link (p : Pool) (n addr trailsize : Nat) (zeroed : Bool) :
    chunkRecycleTrail p n addr trailsize zeroed =
      link p n { p.node n with addr := addr, size := trailsize, zeroed := zeroed } := rfl

/-- The second section adds the trailing part, wherever the trees are by then. -/
theorem chunkRecycleTrail_section {n addr trailsize : Nat} (trees : FreeTrees c p)
    (zeroed : Bool) (fresh : n ∉ p.chunksAd)
    (range : Recordable c p addr trailsize) :
    TreeSection c p (chunkRecycleTrail p n addr trailsize zeroed) [n] []
      [⟨addr, trailsize⟩] [] := by
  rw [chunkRecycleTrail_eq_link]
  exact link_section trees fresh
    { nonempty := range.nonempty
      size_dvd := range.size_dvd
      addr_dvd := range.addr_dvd
      below := range.below }
    range.apart

/-- Linking a range keeps coalescing complete when nothing touches it. -/
theorem chunkRecycleTrail_coalesced {n addr trailsize : Nat} (zeroed : Bool)
    (fresh : n ∉ p.chunksAd)
    (nonempty : 0 < trailsize)
    (coalesced : Coalesced p)
    (noneEnds : ∀ m ∈ p.chunksAd, (p.node m).addr + (p.node m).size ≠ addr)
    (noneStarts : ∀ m ∈ p.chunksAd, (p.node m).addr ≠ addr + trailsize) :
    Coalesced (chunkRecycleTrail p n addr trailsize zeroed) := by
  rw [chunkRecycleTrail_eq_link]
  intro a aMember b bMember
  have elsewhere : ∀ m ∈ p.chunksAd, (link p n { p.node n with
      addr := addr, size := trailsize, zeroed := zeroed }).node m = p.node m := by
    intro m member
    have different : m ≠ n := fun equal => fresh (equal ▸ member)
    exact link_node_of_ne p _ different
  have atNode := link_node_self p n { p.node n with
    addr := addr, size := trailsize, zeroed := zeroed }
  rcases OrderedTree.mem_insert.mp aMember with aIs | aOld
  · rw [aIs, atNode]
    rcases OrderedTree.mem_insert.mp bMember with bIs | bOld
    · rw [bIs, atNode]
      dsimp only
      omega
    · rw [elsewhere b bOld]
      exact (noneStarts b bOld).symm
  · rw [elsewhere a aOld]
    rcases OrderedTree.mem_insert.mp bMember with bIs | bOld
    · rw [bIs, atNode]
      exact noneEnds a aOld
    · rw [elsewhere b bOld]
      exact coalesced a aOld b bOld

end Jemalloc
end Vmem
