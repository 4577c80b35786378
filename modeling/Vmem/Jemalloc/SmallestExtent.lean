import Vmem.Jemalloc.PoolCreation

/-!
# One chunk from the smallest extent

The base allocator takes chunks one at a time, and `chunk_recycle` serves a request
for one chunk from the front of the smallest extent.  So it is known exactly which
extents, nodes and pointers are left.
-/

namespace Vmem
namespace Jemalloc

variable {c : Config} {p : Pool} {n : Nat} {rest : List Nat}

/-! ## The request -/

theorem allocSize_chunk (c : Config) :
    Word.sub (Word.add c.chunksize c.chunksize) c.chunksize = c.chunksize := by
  have fits := c.two_chunks_lt_modulus
  rw [Word.add_eq (by omega), Word.sub_eq (by omega) (by omega), Nat.add_sub_cancel]

theorem chunkRecycleTake_nil {newAddr size alignment allocSize : Nat}
    (empty : p.chunksSzad = []) :
    chunkRecycleTake p newAddr size alignment allocSize = none := by
  unfold chunkRecycleTake
  rw [empty]
  rfl

/-- A request for one chunk is served from the front of the smallest extent. -/
theorem chunkRecycleTake_first (trees : FreeTrees c p) (first : p.chunksSzad = n :: rest) :
    chunkRecycleTake p 0 c.chunksize c.chunksize c.chunksize =
      some ⟨unlink p n, (p.node n).addr, (p.node n).size - c.chunksize, (p.node n).zeroed,
        some n⟩ := by
  have member : n ∈ p.chunksAd := trees.mem_szad.mp (first ▸ List.mem_cons_self)
  have extent := trees.extent n member
  have below := extent.below
  have positive := c.chunksize_pos
  have long : c.chunksize ≤ (p.node n).size := Nat.le_of_dvd extent.nonempty extent.size_dvd
  have found : OrderedTree.nsearch (fun m => (p.node m).szadKey) (toLex (c.chunksize, 0))
      p.chunksSzad = some n := by
    rw [first]
    refine List.find?_cons_of_pos ?_
    rw [decide_eq_true_eq]
    rcases Nat.lt_or_eq_of_le long with less | equal
    · exact Prod.Lex.le_iff.mpr (Or.inl less)
    · exact Prod.Lex.le_iff.mpr (Or.inr ⟨equal, Nat.zero_le _⟩)
  have aligned : Word.ceil (p.node n).addr c.chunksize = (p.node n).addr :=
    Word.ceil_eq_of_dvd extent.addr_dvd (by omega)
  have noLead : Word.sub (p.node n).addr (p.node n).addr = 0 := by
    rw [Word.sub_eq le_rfl (by omega), Nat.sub_self]
  have whole : Word.sub (p.node n).size 0 = (p.node n).size :=
    Word.sub_eq (Nat.zero_le _) (by omega)
  have trail : Word.sub (p.node n).size c.chunksize = (p.node n).size - c.chunksize :=
    Word.sub_eq long (by omega)
  have start : Word.add (p.node n).addr 0 = (p.node n).addr := Word.add_eq (by omega)
  unfold chunkRecycleTake
  simp only [found, ne_eq, not_true_eq_false, false_and, if_false, aligned, noLead, whole, trail,
    start]
  rfl

/-- What is left of the smallest extent is the smallest one again. -/
theorem link_first (trees : FreeTrees c p) (first : p.chunksSzad = n :: rest)
    {value : ExtentNode} (smaller : value.size < (p.node n).size) :
    (link (unlink p n) n value).chunksSzad = n :: rest := by
  have sorted := trees.sortedSzad
  rw [first] at sorted
  obtain ⟨less, _⟩ := List.pairwise_cons.mp sorted
  have removed : (unlink p n).chunksSzad = rest := by
    change OrderedTree.remove n p.chunksSzad = rest
    rw [first]
    exact List.erase_cons_head ..
  change OrderedTree.insert (fun m => ((link (unlink p n) n value).node m).szadKey) n
    (unlink p n).chunksSzad = n :: rest
  rw [removed]
  apply OrderedTree.insert_of_le
  intro other member
  have different : other ≠ n := by
    rintro rfl
    exact lt_irrefl _ (less other member)
  rw [link_node_self, link_node_of_ne _ _ different]
  change value.szadKey ≤ (p.node other).szadKey
  apply Prod.Lex.le_iff.mpr
  refine Or.inl ?_
  have larger : (p.node n).size ≤ (p.node other).size := by
    rcases Prod.Lex.lt_iff.mp (less other member) with shorter | ⟨equal, _⟩
    · exact le_of_lt shorter
    · exact le_of_eq equal
  exact lt_of_lt_of_le smaller larger

/-- The base allocator asks for one chunk to hold a node. -/
theorem chunkCeiling_of_le {size : Nat} (nonempty : 0 < size) (small : size ≤ c.chunksize) :
    c.chunkCeiling size = c.chunksize := by
  have positive := c.chunksize_pos
  have fits := c.two_chunks_lt_modulus
  have lower : size ≤ c.chunkCeiling size := Word.le_ceil positive (by omega)
  have upper : c.chunkCeiling size < size + c.chunksize :=
    Word.ceil_lt_add positive (by omega)
  obtain ⟨k, multiple⟩ := c.dvd_chunkCeiling size
  have one : k = 1 := by
    have atLeast : 0 < k := by
      by_contra zero
      rw [Nat.eq_zero_of_not_pos zero, Nat.mul_zero] at multiple
      omega
    by_contra different
    have : c.chunksize * 2 ≤ c.chunksize * k := Nat.mul_le_mul_left _ (by omega)
    omega
  rw [multiple, one, Nat.mul_one]

/-- A free extent ends below the last chunk of the address space. -/
theorem ExtentValid.last {e : ExtentNode} (valid : ExtentValid c e) :
    e.addr + e.size + c.chunksize ≤ Word.modulus := by
  have below := valid.below
  have gap : c.chunksize ∣ Word.modulus - (e.addr + e.size) :=
    Nat.dvd_sub c.chunksize_dvd_modulus (Nat.dvd_add valid.addr_dvd valid.size_dvd)
  have := Nat.le_of_dvd (by omega) gap
  omega

/-! ## What is left -/

/-- The pool after one chunk is taken from its smallest extent `n`. -/
structure FirstTaken (c : Config) (p : Pool) (n : Nat) (rest : List Nat) (p' : Pool) : Prop where
  usedUp : (p.node n).size = c.chunksize →
    p'.chunksSzad = rest ∧ p'.baseNodes = n :: p.baseNodes
  cut : c.chunksize < (p.node n).size →
    p'.chunksSzad = n :: rest ∧ (p'.node n).size = (p.node n).size - c.chunksize ∧
      p'.baseNodes = p.baseNodes
  others : ∀ m, m ≠ n → p'.node m = p.node m

/-- Pointers, counters and the list of base chunks do not matter. -/
theorem FirstTaken.of_edit {q p' : Pool} (taken : FirstTaken c p n rest q)
    (order : p'.chunksSzad = q.chunksSzad) (nodes : p'.baseNodes = q.baseNodes)
    (heap : p'.node = q.node) : FirstTaken c p n rest p' where
  usedUp := by
    rw [order, nodes]
    exact taken.usedUp
  cut := by
    rw [order, nodes, heap]
    exact taken.cut
  others := by
    rw [heap]
    exact taken.others

/-- A request for one chunk takes it from the front of the smallest extent. -/
theorem chunkRecycle_first (trees : FreeTrees c p) (first : p.chunksSzad = n :: rest) :
    ∃ p', chunkRecycle c p 0 c.chunksize c.chunksize false =
        (p', some ((p.node n).addr, (p.node n).zeroed)) ∧ FirstTaken c p n rest p' := by
  have member : n ∈ p.chunksAd := trees.mem_szad.mp (first ▸ List.mem_cons_self)
  have extent := trees.extent n member
  have positive := c.chunksize_pos
  unfold chunkRecycle
  dsimp only
  rw [allocSize_chunk, if_neg (lt_irrefl _), chunkRecycleTake_first trees first]
  unfold chunkRecycleRest
  dsimp only
  rcases Nat.eq_or_lt_of_le (Nat.le_of_dvd extent.nonempty extent.size_dvd) with equal | longer
  · rw [← equal, Nat.sub_self, if_neg (not_not.mpr rfl), chunkRecycleZero_eq]
    refine ⟨_, rfl, fun _ => ⟨?_, rfl⟩, fun longer => absurd longer (by omega), fun _ _ => rfl⟩
    change OrderedTree.remove n p.chunksSzad = rest
    rw [first]
    exact List.erase_cons_head ..
  · have trails : (p.node n).size - c.chunksize ≠ 0 := by omega
    rw [if_pos trails, chunkRecycleTrail_eq_link, chunkRecycleZero_eq]
    refine ⟨_, rfl, fun equal => absurd equal (by omega), fun _ => ⟨?_, ?_, rfl⟩, ?_⟩
    · apply link_first trees first
      dsimp only
      omega
    · dsimp only
      rw [link_node_self]
    · intro m different
      dsimp only
      rw [link_node_of_ne _ _ different]
      rfl

/-- Without free extents there is no chunk. -/
theorem chunkRecycle_nil {newAddr size alignment : Nat} {zero : Bool}
    (empty : p.chunksSzad = []) : chunkRecycle c p newAddr size alignment zero = (p, none) := by
  unfold chunkRecycle
  dsimp only
  rw [chunkRecycleTake_nil empty]
  split
  · rfl
  · rfl

/-! ## The base allocator -/

/-- The base region of a pool, below the last chunk of the address space. -/
structure BaseRegion (c : Config) (p : Pool) : Prop where
  order : p.baseNextAddr ≤ p.basePastAddr
  below : p.basePastAddr + c.chunksize ≤ Word.modulus

theorem BaseRegion.past_lt (region : BaseRegion c p) : p.basePastAddr < Word.modulus :=
  lt_of_lt_of_le (Nat.lt_add_of_pos_right c.chunksize_pos) region.below

/-- An allocation that does not fit the base region. -/
theorem BaseRegion.too_long {size : Nat} (region : BaseRegion c p)
    (small : cachelineCeiling size < c.chunksize)
    (full : p.basePastAddr < p.baseNextAddr + cachelineCeiling size) :
    Word.add p.baseNextAddr (cachelineCeiling size) > p.basePastAddr := by
  have order := region.order
  have below := region.below
  rw [Word.add_eq (by omega)]
  exact full

/-- It takes one chunk, if there is a free extent. -/
theorem baseAlloc_first {size : Nat} (trees : FreeTrees c p) (region : BaseRegion c p)
    (first : p.chunksSzad = n :: rest) (nonempty : 0 < cachelineCeiling size)
    (small : cachelineCeiling size < c.chunksize)
    (full : p.basePastAddr < p.baseNextAddr + cachelineCeiling size) :
    ∃ p', baseAlloc c p size = (p', some (p.node n).addr) ∧ FirstTaken c p n rest p' ∧
      p'.baseNextAddr = (p.node n).addr + cachelineCeiling size ∧
      p'.basePastAddr = (p.node n).addr + c.chunksize := by
  obtain ⟨q, recycled, taken⟩ := chunkRecycle_first trees first
  have member : n ∈ p.chunksAd := trees.mem_szad.mp (first ▸ List.mem_cons_self)
  have last := (trees.extent n member).last
  have positive := (trees.extent n member).nonempty
  have next : Word.add (p.node n).addr (cachelineCeiling size) =
      (p.node n).addr + cachelineCeiling size := Word.add_eq (by omega)
  have past : Word.add (p.node n).addr c.chunksize = (p.node n).addr + c.chunksize :=
    Word.add_eq (by omega)
  unfold baseAlloc
  dsimp only
  rw [if_pos (region.too_long small full)]
  unfold basePagesAlloc chunkAllocBase baseBump
  dsimp only
  rw [chunkCeiling_of_le nonempty (le_of_lt small), recycled]
  exact ⟨_, rfl, taken.of_edit rfl rfl rfl, next, past⟩

/-- Without free extents only the base region can serve an allocation. -/
theorem baseAlloc_nil {size : Nat} (empty : p.chunksSzad = [])
    (full : Word.add p.baseNextAddr (cachelineCeiling size) > p.basePastAddr) :
    baseAlloc c p size = (p, none) := by
  unfold baseAlloc
  dsimp only
  rw [if_pos full]
  unfold basePagesAlloc chunkAllocBase
  dsimp only
  rw [chunkRecycle_nil empty]

/-- A base allocation fails only without free extents. -/
theorem baseAlloc_failed {size : Nat} (trees : FreeTrees c p)
    (nonempty : 0 < cachelineCeiling size) (small : cachelineCeiling size ≤ c.chunksize)
    (failed : (baseAlloc c p size).2 = none) : p.chunksSzad = [] := by
  cases order : p.chunksSzad with
  | nil => rfl
  | cons n rest =>
      have member : n ∈ p.chunksAd := trees.mem_szad.mp (order ▸ List.mem_cons_self)
      have extent := trees.extent n member
      have request : Request c c.chunksize c.chunksize := by
        have fits := c.two_chunks_lt_modulus
        exact Request.of_chunksize c.chunksize_pos (dvd_refl _) (by omega)
      obtain ⟨q, ret, zeroOut, result⟩ := chunkRecycle_of_long trees request member
        (Nat.le_of_dvd extent.nonempty extent.size_dvd) false
      unfold baseAlloc at failed
      dsimp only at failed
      split at failed
      · unfold basePagesAlloc chunkAllocBase at failed
        dsimp only at failed
        rw [chunkCeiling_of_le nonempty small, result] at failed
        cases failed
      · cases failed

end Jemalloc
end Vmem
