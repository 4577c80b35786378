import Mathlib.Algebra.Order.Ring.Int
import Mathlib.Algebra.BigOperators.Group.List.Basic
import Vmem.Library.Run
import Vmem.Library.Signed
import Vmem.Jemalloc.ThreadArrays

/-!
# The pool vector

A vector keeps a value for each index in a chain of parts.  A part is made when an index behind
all parts is set; its length is the power of two above what is left of the index.

Indices and lengths are `int`s, kept as integers.  The words of a part's array are given for every
integer, so that an access outside of the array is still an access to something.
-/

namespace Vmem
namespace Jemalloc

/-- `void *`; `NULL` is zero. -/
abbrev VoidPtr := BitVec 64

/-- `vec_list_t`: the fields, and the size of the block that the part lies in. -/
structure VecList where
  length : Int
  size : Nat
  data : Int → VoidPtr

/-- `vector_t`: the chain of parts. -/
abbrev PoolVector := List VecList

/-- `VECTOR_MIN_PART_SIZE`. -/
def vectorMinPartSize : Nat := 8

/-- `ceil_p2`.  `__builtin_clz(0)`, and the shift by 32 for the numbers with the highest bit, have
no defined value: `undefined` is what the machine makes of them. -/
def ceilP2 (n : Nat) (undefined : BitVec 32) : Nat :=
  if n = 0 ∨ 2147483648 ≤ n then undefined.toNat else 1 <<< (32 - builtinClz n)

/-- `get_vec_part_len`. -/
def getVecPartLen (n : Nat) (undefined : BitVec 32) : Nat :=
  max (ceilP2 n undefined) vectorMinPartSize

/-- `find_vec_list`: the place in the chain, and what is left of the index there. -/
def findVecList : PoolVector → Int → Nat × Int
  | [], index => (0, index)
  | part :: rest, index =>
      if index < part.length then (0, index)
      else
        let found := findVecList rest (toInt32 (index - part.length))
        (found.1 + 1, found.2)

/-- `vec_get`. -/
def vecGet (vector : PoolVector) (index : Int) : VoidPtr :=
  let found := findVecList vector index
  match vector[found.1]? with
  | none => 0
  | some part => part.data found.2

/-- The words of an array after an assignment to one of them. -/
def assign (data : Int → VoidPtr) (index : Int) (val : VoidPtr) : Int → VoidPtr :=
  fun slot => if slot = index then val else data slot

/-- `sizeof(vec_list_t) + sizeof(void *) * vec_part_len` as a `size_t`. -/
def vecListSize (length : Int) : Nat := toUInt64 (16 + 8 * length)

/-- The part that `vec_set` makes for what is left of an index, in memory with the given words. -/
def newVecList (index : Int) (memory : Int → VoidPtr) (undefined : BitVec 32) : VecList :=
  let vecPartLen := toInt32 (getVecPartLen (toUInt32 index) undefined)
  { length := vecPartLen, size := vecListSize vecPartLen, data := memory }

/-- `vec_set`.  `memory` is what is found in the block that `base_malloc_fn` returns, or `none`
if it returns `NULL`. -/
def vecSet (vector : PoolVector) (index : Int) (val : VoidPtr) (memory : Option (Int → VoidPtr))
    (undefined : BitVec 32) : PoolVector :=
  let found := findVecList vector index
  match vector[found.1]? with
  | some part =>
      vector.set found.1 { part with data := assign part.data found.2 val }
  | none =>
      match memory with
      | none => vector
      | some memory =>
          let part := newVecList found.2 memory undefined
          vector ++ [{ part with data := assign part.data found.2 val }]

/-- An index is inside the array of a part, and the array's word inside its block. -/
def VecList.Inside (part : VecList) (index : Int) : Prop :=
  0 ≤ index ∧ index < part.length ∧ 16 + 8 * (index + 1) ≤ part.size

/-- The word of an array that `vec_get`, or `vec_set` once there is a part, touches is inside the
array. -/
def AccessInside (vector : PoolVector) (index : Int) : Prop :=
  ∀ part, vector[(findVecList vector index).1]? = some part →
    part.Inside (findVecList vector index).2

/-- The write of `vec_set` is inside the array of its part, be it an old or a new one. -/
def SetInside (vector : PoolVector) (index : Int) (memory : Option (Int → VoidPtr))
    (undefined : BitVec 32) : Prop :=
  let found := findVecList vector index
  match vector[found.1]? with
  | some part => part.Inside found.2
  | none =>
      match memory with
      | none => True
      | some memory => (newVecList found.2 memory undefined).Inside found.2

/-! ## Runs -/

/-- A call of `vec_set`, with what the block holds that it may get. -/
structure VecCall where
  index : Int
  val : VoidPtr
  memory : Int → VoidPtr
  undefined : BitVec 32

/-- An `int` that is not negative. -/
def IsIndex (index : Int) : Prop := 0 ≤ index ∧ index < 2147483648

/-- A vector, and the value that each index was last set to. -/
structure VecState where
  vector : PoolVector
  latest : Int → VoidPtr

namespace VecState

/-- The empty vector, in which no index was set. -/
def empty : VecState := ⟨[], fun _ => 0⟩

/-- The state after a call. -/
def next (state : VecState) (call : VecCall) : VecState :=
  { vector := vecSet state.vector call.index call.val (some call.memory) call.undefined,
    latest := assign state.latest call.index call.val }

/-- A call is faithful: its write is inside an array, and afterwards each index is read inside an
array and gives what it was last set to, which is what it gave before if it is not the one set. -/
def Faithful (state : VecState) (call : VecCall) : Prop :=
  SetInside state.vector call.index (some call.memory) call.undefined ∧
  (∀ index, IsIndex index → AccessInside (state.next call).vector index ∧
    vecGet (state.next call).vector index = (state.next call).latest index) ∧
  ∀ index, IsIndex index → index ≠ call.index →
    vecGet (state.next call).vector index = vecGet state.vector index

end VecState

/-- The number of indices that the parts have words for. -/
def extent (vector : PoolVector) : Int := (vector.map VecList.length).sum

/-- What is left of an index is below 2^30, and the length for zero, which `__builtin_clz` does
not say, is not negative. -/
def LengthFits (index : Int) (undefined : BitVec 32) : Prop :=
  index < 1073741824 ∧ (index = 0 → undefined.toNat < 2147483648)

/-- A part for a call would have a length that fits into an `int`, and the block for it comes with
`NULL` wherever another index is kept.  `rest` is what is left of the index, and `below` the number
of indices before the part. -/
def PartIsClean (below rest : Int) (memory : Int → VoidPtr) (undefined : BitVec 32) : Prop :=
  LengthFits rest undefined ∧
  ∀ slot : Int, 0 ≤ slot → slot < getVecPartLen (toUInt32 rest) undefined → IsIndex (below + slot) →
    slot ≠ rest → memory slot = 0

/-- If a call has to make a part, that is clean. -/
def VecState.Clean (state : VecState) (call : VecCall) : Prop :=
  extent state.vector ≤ call.index →
    PartIsClean (extent state.vector) (call.index - extent state.vector) call.memory
      call.undefined

/-! ## Lengths of parts -/

/-- The power of two above a number. -/
theorem ceilP2_eq {n : Nat} {undefined : BitVec 32} (positive : 0 < n) (upper : n < 2147483648) :
    ceilP2 n undefined = 2 ^ (Nat.log2 n + 1) := by
  have log : Nat.log2 n < 31 := (Nat.log2_lt (by omega)).mpr upper
  unfold ceilP2 builtinClz
  rw [if_neg (by omega), Nat.one_shiftLeft, show 32 - (31 - Nat.log2 n) = Nat.log2 n + 1 by omega]

theorem lt_ceilP2 {n : Nat} {undefined : BitVec 32} (positive : 0 < n) (upper : n < 2147483648) :
    n < ceilP2 n undefined := by
  rw [ceilP2_eq positive upper]
  exact Nat.lt_log2_self

/-- The power of two fits into an `int` for the numbers below 2^30 only. -/
theorem ceilP2_lt_iff {n : Nat} {undefined : BitVec 32} (positive : 0 < n)
    (upper : n < 2147483648) : ceilP2 n undefined < 2147483648 ↔ n < 1073741824 := by
  have exponent : Nat.log2 n < 30 ↔ n < 1073741824 := Nat.log2_lt (k := 30) (by omega)
  rw [ceilP2_eq positive upper, show 2147483648 = 2 ^ 31 by decide,
    Nat.pow_lt_pow_iff_right (by decide), ← exponent]
  omega

/-- A part whose array and block are as long as its length says. -/
structure VecList.Sized (part : VecList) : Prop where
  positive : 0 < part.length
  fits : part.length < 2147483648
  size : (part.size : Int) = 16 + 8 * part.length

theorem VecList.Sized.inside {part : VecList} {index : Int} (sized : part.Sized)
    (lower : 0 ≤ index) (upper : index < part.length) : part.Inside index := by
  have size := sized.size
  exact ⟨lower, upper, by omega⟩

theorem VecList.Sized.assign {part : VecList} (sized : part.Sized) (data : Int → VoidPtr) :
    VecList.Sized { part with data := data } :=
  ⟨sized.positive, sized.fits, sized.size⟩

section Part

variable {index : Int} {memory : Int → VoidPtr} {undefined : BitVec 32}

/-- The power of two fits under that condition only. -/
theorem ceilP2_toUInt32_lt_iff (isIndex : IsIndex index) :
    ceilP2 (toUInt32 index) undefined < 2147483648 ↔ LengthFits index undefined := by
  obtain ⟨lower, upper⟩ := isIndex
  have value := toUInt32_of_nonneg lower (by omega)
  by_cases zero : index = 0
  · subst zero
    have unfolded : ceilP2 (toUInt32 0) undefined = undefined.toNat := if_pos (.inl rfl)
    rw [unfolded]
    exact ⟨fun fits => ⟨by omega, fun _ => fits⟩, fun fits => fits.2 rfl⟩
  · rw [ceilP2_lt_iff (by omega) (by omega)]
    exact ⟨fun fits => ⟨by omega, fun same => absurd same zero⟩, fun fits => by
      have bound := fits.1
      omega⟩

theorem getVecPartLen_lt_iff (isIndex : IsIndex index) :
    getVecPartLen (toUInt32 index) undefined < 2147483648 ↔ LengthFits index undefined := by
  rw [← ceilP2_toUInt32_lt_iff isIndex]
  unfold getVecPartLen vectorMinPartSize
  omega

/-- What is left of the index lies inside the length. -/
theorem lt_getVecPartLen (undefined : BitVec 32) (isIndex : IsIndex index) :
    index < getVecPartLen (toUInt32 index) undefined := by
  obtain ⟨lower, upper⟩ := isIndex
  have value := toUInt32_of_nonneg lower (by omega)
  unfold getVecPartLen vectorMinPartSize
  by_cases zero : index = 0
  · omega
  · have above : toUInt32 index < ceilP2 (toUInt32 index) undefined :=
      lt_ceilP2 (by omega) (by omega)
    omega

theorem newVecList_length : (newVecList index memory undefined).length =
    toInt32 (getVecPartLen (toUInt32 index) undefined) := by
  simp only [newVecList]

theorem newVecList_size : (newVecList index memory undefined).size =
    vecListSize (newVecList index memory undefined).length := by
  simp only [newVecList]

/-- The length is below 2^32. -/
theorem getVecPartLen_lt (undefined : BitVec 32) (isIndex : IsIndex index) :
    getVecPartLen (toUInt32 index) undefined < 4294967296 := by
  obtain ⟨lower, upper⟩ := isIndex
  have value := toUInt32_of_nonneg lower (by omega)
  unfold getVecPartLen vectorMinPartSize
  by_cases zero : index = 0
  · subst zero
    have unfolded : ceilP2 (toUInt32 0) undefined = undefined.toNat := if_pos (.inl rfl)
    have bound := undefined.isLt
    omega
  · have log : Nat.log2 (toUInt32 index) + 1 < 32 :=
      Nat.succ_lt_succ ((Nat.log2_lt (by omega)).mpr (show toUInt32 index < 2 ^ 31 by omega))
    have power : 2 ^ (Nat.log2 (toUInt32 index) + 1) < 2 ^ 32 :=
      Nat.pow_lt_pow_right (by decide) log
    rw [ceilP2_eq (by omega) (by omega)]
    omega

theorem newVecList_length_of_fits (memory : Int → VoidPtr) (isIndex : IsIndex index)
    (fits : LengthFits index undefined) :
    (newVecList index memory undefined).length = getVecPartLen (toUInt32 index) undefined := by
  have bound := (getVecPartLen_lt_iff isIndex).mpr fits
  rw [newVecList_length]
  exact toInt32_of_fits (by omega) (by omega)

theorem newVecList_sized (isIndex : IsIndex index) (fits : LengthFits index undefined) :
    (newVecList index memory undefined).Sized := by
  have length := newVecList_length_of_fits memory isIndex fits
  have bound := (getVecPartLen_lt_iff isIndex).mpr fits
  have above := lt_getVecPartLen undefined isIndex
  obtain ⟨lower, upper⟩ := isIndex
  refine ⟨by omega, by omega, ?_⟩
  rw [newVecList_size]
  exact toUInt64_of_nonneg (by omega) (by omega)

/-- A length that does not fit into an `int` turns out negative. -/
theorem newVecList_inside_iff (isIndex : IsIndex index) :
    (newVecList index memory undefined).Inside index ↔ LengthFits index undefined := by
  constructor
  · rintro ⟨_, upper, _⟩
    rw [← getVecPartLen_lt_iff isIndex]
    by_contra large
    have bound := getVecPartLen_lt undefined isIndex
    have negative : toInt32 (getVecPartLen (toUInt32 index) undefined) < 0 :=
      toInt32_neg (by omega) (by omega)
    rw [newVecList_length] at upper
    have lower := isIndex.1
    omega
  · intro fits
    refine (newVecList_sized isIndex fits).inside isIndex.1 ?_
    rw [newVecList_length_of_fits memory isIndex fits]
    exact lt_getVecPartLen undefined isIndex

end Part

/-! ## The search -/

/-- All parts of a chain are as long as they say. -/
def AllSized (vector : PoolVector) : Prop := ∀ part ∈ vector, part.Sized

theorem AllSized.tail {part : VecList} {rest : PoolVector} (sized : AllSized (part :: rest)) :
    AllSized rest :=
  fun other member => sized other (List.mem_cons_of_mem part member)

theorem extent_nil : extent [] = 0 := rfl

theorem extent_cons (part : VecList) (rest : PoolVector) :
    extent (part :: rest) = part.length + extent rest := by
  simp only [extent, List.map_cons, List.sum_cons]

theorem extent_nonneg {vector : PoolVector} (sized : AllSized vector) : 0 ≤ extent vector := by
  induction vector with
  | nil => exact Int.le_refl 0
  | cons part rest inductionHypothesis =>
      have positive := (sized part List.mem_cons_self).positive
      have nonneg := inductionHypothesis sized.tail
      rw [extent_cons]
      omega

section Search

variable {vector : PoolVector} {part : VecList} {index : Int}

theorem IsIndex.sub {below : Int} (isIndex : IsIndex index) (lower : 0 ≤ below)
    (upper : below ≤ index) : IsIndex (index - below) := by
  obtain ⟨_, bound⟩ := isIndex
  exact ⟨by omega, by omega⟩

theorem findVecList_cons_of_lt {rest : PoolVector} (inside : index < part.length) :
    findVecList (part :: rest) index = (0, index) :=
  if_pos inside

theorem findVecList_cons_of_ge {rest : PoolVector} (sized : part.Sized) (isIndex : IsIndex index)
    (behind : part.length ≤ index) :
    findVecList (part :: rest) index =
      ((findVecList rest (index - part.length)).1 + 1,
        (findVecList rest (index - part.length)).2) := by
  have left := isIndex.sub (Int.le_of_lt sized.positive) behind
  have difference : toInt32 (index - part.length) = index - part.length :=
    toInt32_of_fits (by have lower := left.1; omega) left.2
  rw [findVecList, if_neg (Int.not_lt.mpr behind), difference]

/-- The search looks at the lengths only. -/
theorem findVecList_congr {vector other : PoolVector} (index : Int)
    (lengths : vector.map VecList.length = other.map VecList.length) :
    findVecList vector index = findVecList other index := by
  induction vector generalizing other index with
  | nil =>
      rw [List.map_nil] at lengths
      rw [List.map_eq_nil_iff.mp lengths.symm]
  | cons part rest inductionHypothesis =>
      cases other with
      | nil => cases lengths
      | cons otherPart otherRest =>
          rw [List.map_cons, List.map_cons, List.cons.injEq] at lengths
          rw [findVecList, findVecList, lengths.1,
            inductionHypothesis (toInt32 (index - otherPart.length)) lengths.2]

/-- The search takes the lengths of the parts that it passes from the index. -/
theorem findVecList_snd (sized : AllSized vector) (isIndex : IsIndex index) :
    (findVecList vector index).2 = index - extent (vector.take (findVecList vector index).1) := by
  induction vector generalizing index with
  | nil =>
      rw [List.take_nil, extent_nil]
      exact (Int.sub_zero index).symm
  | cons part rest inductionHypothesis =>
      have head := sized part List.mem_cons_self
      by_cases inside : index < part.length
      · rw [findVecList_cons_of_lt inside, List.take_zero, extent_nil]
        exact (Int.sub_zero index).symm
      · have behind := Int.not_lt.mp inside
        rw [findVecList_cons_of_ge head isIndex behind, List.take_succ_cons, extent_cons,
          inductionHypothesis sized.tail (isIndex.sub (Int.le_of_lt head.positive) behind)]
        omega

/-- A part that is found has a word for the index. -/
theorem accessInside_of_sized (sized : AllSized vector) (isIndex : IsIndex index) :
    AccessInside vector index := by
  induction vector generalizing index with
  | nil =>
      intro part found
      cases found
  | cons head rest inductionHypothesis =>
      have headSized := sized head List.mem_cons_self
      by_cases inside : index < head.length
      · unfold AccessInside
        rw [findVecList_cons_of_lt inside]
        intro part found
        rw [List.getElem?_cons_zero, Option.some.injEq] at found
        exact found ▸ headSized.inside isIndex.1 inside
      · have behind := Int.not_lt.mp inside
        unfold AccessInside
        rw [findVecList_cons_of_ge headSized isIndex behind]
        intro part found
        rw [List.getElem?_cons_succ] at found
        exact inductionHypothesis sized.tail
          (isIndex.sub (Int.le_of_lt headSized.positive) behind) part found

/-- In a chain that another one follows, the indices below its extent are found in it. -/
theorem findVecList_append_of_lt (others : PoolVector) (sized : AllSized vector)
    (isIndex : IsIndex index) (inside : index < extent vector) :
    findVecList (vector ++ others) index = findVecList vector index ∧
      (findVecList vector index).1 < vector.length := by
  induction vector generalizing index with
  | nil =>
      have lower := isIndex.1
      rw [extent_nil] at inside
      omega
  | cons part rest inductionHypothesis =>
      have head := sized part List.mem_cons_self
      rw [List.cons_append]
      by_cases first : index < part.length
      · rw [findVecList_cons_of_lt first, findVecList_cons_of_lt first]
        exact ⟨rfl, Nat.zero_lt_succ _⟩
      · have behind := Int.not_lt.mp first
        rw [extent_cons] at inside
        obtain ⟨same, bound⟩ := inductionHypothesis sized.tail
          (isIndex.sub (Int.le_of_lt head.positive) behind) (by omega)
        rw [findVecList_cons_of_ge head isIndex behind, findVecList_cons_of_ge head isIndex behind,
          same]
        exact ⟨rfl, Nat.succ_lt_succ bound⟩

/-- The other indices are found in the chain that follows. -/
theorem findVecList_append_of_ge (others : PoolVector) (sized : AllSized vector)
    (isIndex : IsIndex index) (behind : extent vector ≤ index) :
    findVecList (vector ++ others) index =
      (vector.length + (findVecList others (index - extent vector)).1,
        (findVecList others (index - extent vector)).2) := by
  induction vector generalizing index with
  | nil => rw [List.nil_append, extent_nil, Int.sub_zero, List.length_nil, Nat.zero_add]
  | cons part rest inductionHypothesis =>
      have head := sized part List.mem_cons_self
      have nonneg := extent_nonneg sized.tail
      rw [extent_cons] at behind
      have left := isIndex.sub (Int.le_of_lt head.positive) (by omega)
      have place : index - part.length - extent rest = index - (part.length + extent rest) := by
        omega
      rw [List.cons_append, findVecList_cons_of_ge head isIndex (by omega), extent_cons,
        inductionHypothesis sized.tail left (by omega), place, List.length_cons]
      exact Prod.ext (by simp only []; omega) rfl

end Search

/-! ## Reading after a write -/

section Write

variable {vector : PoolVector} {part : VecList} {index other : Int} {val : VoidPtr}
  {memory : Int → VoidPtr} {undefined : BitVec 32}

theorem vecSet_of_found (found : vector[(findVecList vector index).1]? = some part)
    (returned : Option (Int → VoidPtr)) :
    vecSet vector index val returned undefined = vector.set (findVecList vector index).1
      { part with data := assign part.data (findVecList vector index).2 val } := by
  simp only [vecSet, found]

theorem setInside_of_found (found : vector[(findVecList vector index).1]? = some part)
    (returned : Option (Int → VoidPtr)) :
    SetInside vector index returned undefined ↔ part.Inside (findVecList vector index).2 := by
  simp only [SetInside, found]

theorem vecGet_of_found (found : vector[(findVecList vector index).1]? = some part) :
    vecGet vector index = part.data (findVecList vector index).2 := by
  simp only [vecGet, found]

theorem vecGet_of_none (missing : vector[(findVecList vector index).1]? = none) :
    vecGet vector index = 0 := by
  simp only [vecGet, missing]

/-- Writing to the words of a part keeps all lengths. -/
theorem map_length_set {place : Nat} (found : vector[place]? = some part)
    (data : Int → VoidPtr) :
    (vector.set place { part with data := data }).map VecList.length =
      vector.map VecList.length := by
  have bound := (List.getElem?_eq_some_iff.mp found).1
  apply List.ext_getElem?
  intro i
  rw [List.map_set]
  by_cases same : place = i
  · rw [← same, List.getElem?_set_self (List.length_map VecList.length ▸ bound),
      List.getElem?_map, found]
    rfl
  · rw [List.getElem?_set_ne same]

/-- Writing to a word of an old part changes what one index reads. -/
theorem vecGet_vecSet_of_found (sized : AllSized vector) (isIndex : IsIndex index)
    (otherIndex : IsIndex other)
    (found : vector[(findVecList vector index).1]? = some part)
    (returned : Option (Int → VoidPtr)) :
    vecGet (vecSet vector index val returned undefined) other =
      if other = index then val else vecGet vector other := by
  have bound := (List.getElem?_eq_some_iff.mp found).1
  have offset := findVecList_snd sized isIndex
  have otherOffset := findVecList_snd sized otherIndex
  rw [vecSet_of_found found]
  generalize writtenWords :
    assign part.data (findVecList vector index).2 val = words
  have search : findVecList (vector.set (findVecList vector index).1
      { part with data := words }) other = findVecList vector other :=
    findVecList_congr other (map_length_set found words)
  by_cases samePlace : (findVecList vector other).1 = (findVecList vector index).1
  · have here : (vector.set (findVecList vector index).1
        { part with data := words })[(findVecList vector other).1]? =
        some { part with data := words } := by
      rw [samePlace, List.getElem?_set_self bound]
    rw [vecGet_of_found (search ▸ here), search, ← writtenWords]
    rw [samePlace] at otherOffset
    by_cases same : other = index
    · rw [if_pos same, same]
      exact if_pos rfl
    · rw [if_neg same, vecGet_of_found (samePlace ▸ found)]
      exact if_neg (by omega)
  · have different : other ≠ index := fun same => samePlace (same ▸ rfl)
    rw [if_neg different]
    simp only [vecGet, search]
    rw [List.getElem?_set_ne (Ne.symm samePlace)]

theorem findVecList_of_extent_le (sized : AllSized vector) (isIndex : IsIndex index)
    (behind : extent vector ≤ index) :
    findVecList vector index = (vector.length, index - extent vector) := by
  have search := findVecList_append_of_ge [] sized isIndex behind
  rwa [List.append_nil] at search

/-- Nothing is found behind all parts only. -/
theorem exists_of_lt_extent (sized : AllSized vector) (isIndex : IsIndex index)
    (inside : index < extent vector) :
    ∃ part, vector[(findVecList vector index).1]? = some part :=
  ⟨_, List.getElem?_eq_getElem (findVecList_append_of_lt [] sized isIndex inside).2⟩

/-- A call for an index behind all parts adds one. -/
theorem vecSet_of_extent_le (sized : AllSized vector) (isIndex : IsIndex index)
    (behind : extent vector ≤ index) :
    vecSet vector index val (some memory) undefined =
      vector ++ [{ newVecList (index - extent vector) memory undefined with
        data := assign memory (index - extent vector) val }] := by
  have search := findVecList_of_extent_le sized isIndex behind
  simp only [vecSet, search, List.getElem?_length]
  rfl

theorem setInside_of_extent_le (sized : AllSized vector) (isIndex : IsIndex index)
    (behind : extent vector ≤ index) :
    SetInside vector index (some memory) undefined ↔
      LengthFits (index - extent vector) undefined := by
  have search := findVecList_of_extent_le sized isIndex behind
  simp only [SetInside, search, List.getElem?_length]
  exact newVecList_inside_iff (isIndex.sub (extent_nonneg sized) behind)

/-- A part behind the others keeps the indices from their extent on. -/
theorem vecGet_append (sized : AllSized vector) (isIndex : IsIndex index) (last : VecList)
    (lastSized : last.Sized) :
    vecGet (vector ++ [last]) index =
      if index < extent vector then vecGet vector index
      else if index < extent vector + last.length then last.data (index - extent vector)
      else 0 := by
  by_cases inside : index < extent vector
  · obtain ⟨search, bound⟩ := findVecList_append_of_lt [last] sized isIndex inside
    rw [if_pos inside]
    simp only [vecGet, search]
    rw [List.getElem?_append_left bound]
  · have behind := Int.not_lt.mp inside
    have left := isIndex.sub (extent_nonneg sized) behind
    have search := findVecList_append_of_ge [last] sized isIndex behind
    rw [if_neg inside]
    by_cases here : index < extent vector + last.length
    · rw [if_pos here]
      rw [findVecList_cons_of_lt (by omega)] at search
      simp only [vecGet, search, Nat.add_zero, List.getElem?_concat_length]
    · rw [if_neg here]
      rw [findVecList_cons_of_ge lastSized left (by omega)] at search
      apply vecGet_of_none
      rw [search]
      exact List.getElem?_eq_none (by simp only [List.length_append, List.length_singleton]; omega)

end Write

/-! ## Steps and runs -/

namespace VecState

/-- The parts are as long as they say, and each index reads what it was last set to. -/
structure Invariant (state : VecState) : Prop where
  sized : AllSized state.vector
  reads : ∀ index, IsIndex index → vecGet state.vector index = state.latest index

theorem invariant_empty : Invariant empty :=
  ⟨fun _ member => absurd member List.not_mem_nil, fun _ _ => rfl⟩

variable {state : VecState} {call : VecCall} {index : Int}

theorem next_vector : (state.next call).vector =
    vecSet state.vector call.index call.val (some call.memory) call.undefined := by
  simp only [next]

theorem next_latest : (state.next call).latest = assign state.latest call.index call.val := by
  simp only [next]

/-- An index behind all parts was never set. -/
theorem Invariant.latest_of_extent_le (invariant : state.Invariant) (isIndex : IsIndex index)
    (behind : extent state.vector ≤ index) : state.latest index = 0 := by
  rw [← invariant.reads index isIndex]
  apply vecGet_of_none
  rw [findVecList_of_extent_le invariant.sized isIndex behind]
  exact List.getElem?_length _

/-- A call for an index that some part has a word for. -/
theorem Invariant.next_of_lt_extent (invariant : state.Invariant) (isIndex : IsIndex call.index)
    (inside : call.index < extent state.vector) :
    (state.next call).Invariant ∧
      SetInside state.vector call.index (some call.memory) call.undefined := by
  obtain ⟨part, found⟩ := exists_of_lt_extent invariant.sized isIndex inside
  have partInside := accessInside_of_sized invariant.sized isIndex part found
  refine ⟨⟨?_, ?_⟩, (setInside_of_found found _).mpr partInside⟩
  · intro other member
    rw [next_vector, vecSet_of_found found] at member
    rcases List.mem_or_eq_of_mem_set member with old | same
    · exact invariant.sized other old
    · rw [same]
      exact (invariant.sized part (List.mem_of_getElem? found)).assign _
  · intro other otherIndex
    rw [next_vector, next_latest, vecGet_vecSet_of_found invariant.sized isIndex otherIndex found,
      invariant.reads other otherIndex]
    rfl

/-- What is read after a call that adds a part. -/
theorem Invariant.vecGet_next_of_extent_le (invariant : state.Invariant)
    (isIndex : IsIndex call.index) (behind : extent state.vector ≤ call.index)
    (fits : LengthFits (call.index - extent state.vector) call.undefined)
    (otherIndex : IsIndex index) :
    vecGet (state.next call).vector index =
      if index < extent state.vector then vecGet state.vector index
      else if index < extent state.vector +
          getVecPartLen (toUInt32 (call.index - extent state.vector)) call.undefined then
        assign call.memory (call.index - extent state.vector) call.val
          (index - extent state.vector)
      else 0 := by
  have left := isIndex.sub (extent_nonneg invariant.sized) behind
  rw [next_vector, vecSet_of_extent_le invariant.sized isIndex behind,
    vecGet_append invariant.sized otherIndex _ ((newVecList_sized left fits).assign _)]
  rw [newVecList_length_of_fits call.memory left fits]

/-- A call that adds a part which is clean. -/
theorem Invariant.next_of_extent_le (invariant : state.Invariant) (isIndex : IsIndex call.index)
    (behind : extent state.vector ≤ call.index)
    (clean : PartIsClean (extent state.vector) (call.index - extent state.vector) call.memory
      call.undefined) :
    (state.next call).Invariant ∧
      SetInside state.vector call.index (some call.memory) call.undefined := by
  obtain ⟨fits, nulls⟩ := clean
  have left := isIndex.sub (extent_nonneg invariant.sized) behind
  refine ⟨⟨?_, ?_⟩, (setInside_of_extent_le invariant.sized isIndex behind).mpr fits⟩
  · intro other member
    rw [next_vector, vecSet_of_extent_le invariant.sized isIndex behind] at member
    rcases List.mem_append.mp member with old | last
    · exact invariant.sized other old
    · rw [List.mem_singleton.mp last]
      exact (newVecList_sized left fits).assign _
  · intro other otherIndex
    have above := lt_getVecPartLen call.undefined left
    rw [invariant.vecGet_next_of_extent_le isIndex behind fits otherIndex, next_latest]
    unfold assign
    by_cases same : other = call.index
    · rw [if_pos same, if_neg (by omega), if_pos (by omega), if_pos (by omega)]
    · rw [if_neg same]
      by_cases old : other < extent state.vector
      · rw [if_pos old, invariant.reads other otherIndex]
      · rw [if_neg old, invariant.latest_of_extent_le otherIndex (Int.not_lt.mp old)]
        by_cases inside : other < extent state.vector +
            getVecPartLen (toUInt32 (call.index - extent state.vector)) call.undefined
        · have place : extent state.vector + (other - extent state.vector) = other := by omega
          rw [if_pos inside, if_neg (by omega)]
          exact nulls _ (by omega) (by omega) (place.symm ▸ otherIndex) (by omega)
        · rw [if_neg inside]

theorem Invariant.next (invariant : state.Invariant) (isIndex : IsIndex call.index)
    (clean : state.Clean call) :
    (state.next call).Invariant ∧
      SetInside state.vector call.index (some call.memory) call.undefined := by
  by_cases inside : call.index < extent state.vector
  · exact invariant.next_of_lt_extent isIndex inside
  · have behind := Int.not_lt.mp inside
    exact invariant.next_of_extent_le isIndex behind (clean behind)

theorem Invariant.faithful (invariant : state.Invariant) (isIndex : IsIndex call.index)
    (clean : state.Clean call) : state.Faithful call := by
  obtain ⟨after, writes⟩ := invariant.next isIndex clean
  refine ⟨writes, fun index isIndex =>
    ⟨accessInside_of_sized after.sized isIndex, after.reads index isIndex⟩, ?_⟩
  intro other otherIndex different
  rw [after.reads other otherIndex, invariant.reads other otherIndex]
  exact if_neg different

/-- A word of the new part that is not `NULL` is read for an index that was never set. -/
theorem Invariant.clean_of_faithful (invariant : state.Invariant) (isIndex : IsIndex call.index)
    (faithful : state.Faithful call) : state.Clean call := by
  intro behind
  obtain ⟨writes, _, frame⟩ := faithful
  have fits := (setInside_of_extent_le invariant.sized isIndex behind).mp writes
  refine ⟨fits, ?_⟩
  intro slot nonneg inside slotIndex different
  have kept := frame (extent state.vector + slot) slotIndex (by omega)
  rw [invariant.vecGet_next_of_extent_le isIndex behind fits slotIndex, if_neg (by omega),
    if_pos (by omega), invariant.reads _ slotIndex,
    invariant.latest_of_extent_le slotIndex (by omega), add_sub_cancel_left] at kept
  unfold assign at kept
  rwa [if_neg different] at kept

end VecState

/-- The vector is a faithful map exactly in the runs in which each part that is made has a length
that fits into an `int`, and comes with `NULL` in the words of the indices that are not set. -/
theorem vector_faithful_iff (calls : List VecCall) (nonneg : ∀ call ∈ calls, IsIndex call.index) :
    EveryStep VecState.Faithful VecState.next VecState.empty calls ↔
      EveryStep VecState.Clean VecState.next VecState.empty calls := by
  refine everyStep_iff VecState.Invariant ?_ ?_ VecState.invariant_empty nonneg
  · intro state call invariant isIndex
    exact ⟨invariant.clean_of_faithful isIndex, invariant.faithful isIndex⟩
  · intro state call invariant isIndex clean
    exact (invariant.next isIndex clean).1

/-- Two parts, in zeroed blocks. -/
theorem vector_faithful_iff_small :
    EveryStep VecState.Faithful VecState.next VecState.empty
      [⟨3, 5, fun _ => 0, 0⟩, ⟨20, 6, fun _ => 0, 0⟩] :=
  (vector_faithful_iff [⟨3, 5, fun _ => 0, 0⟩, ⟨20, 6, fun _ => 0, 0⟩]
    (by simp only [List.mem_cons, List.not_mem_nil, or_false, forall_eq_or_imp, forall_eq]
        exact ⟨⟨by decide, by decide⟩, ⟨by decide, by decide⟩⟩)).mpr
    ⟨fun _ => ⟨⟨by decide, fun _ => by decide⟩, fun _ _ _ _ _ => rfl⟩,
      fun _ => ⟨⟨by decide, fun _ => by decide⟩, fun _ _ _ _ _ => rfl⟩, trivial⟩

/-- The first part comes in a block that is not zeroed; index 0 was never set and reads a word of
the block. -/
theorem vector_reads_garbage :
    ∃ calls : List VecCall, (∀ call ∈ calls, IsIndex call.index) ∧
      ¬EveryStep VecState.Faithful VecState.next VecState.empty calls := by
  refine ⟨[⟨1, 5, fun _ => 7, 0⟩], ?_, ?_⟩
  · simp only [List.mem_singleton, forall_eq]
    exact ⟨by decide, by decide⟩
  · rintro ⟨⟨_, reads, _⟩, _⟩
    exact absurd (reads 0 ⟨by decide, by decide⟩).2 (by decide)

end Jemalloc
end Vmem
