import Mathlib.Data.List.Basic
import Mathlib.Data.List.Nodup
import Vmem.Library.Word

/-!
# Sorted queues of address ranges

Elements of a queue stand for ranges of addresses.  A queue is in order when no range is empty
and each ends before the next begins; then every address has at most one holder.  Elements are
inserted where a comparison, not necessarily that of the addresses, stops, and pieces of an
element may take its place.
-/

namespace Vmem

/-- The difference of two words as a signed word. -/
def Word.signedSub (a b : Nat) : Int := Int.bmod ((a : Int) - b) Word.modulus

/-- The signed difference compares addresses that are less than half of the address space away
from each other. -/
theorem Word.signedSub_neg_iff {a b : Nat} (aLt : a < b + 2 ^ 63) (bLt : b < a + 2 ^ 63) :
    Word.signedSub a b < 0 ↔ a < b := by
  have : Word.modulus = 18446744073709551616 := Word.modulus_eq
  unfold Word.signedSub
  rw [this, Int.bmod_def]
  split <;> omega

namespace RangeQueue

variable {τ : Type} (lo hi : τ → Nat)

/-- No range is empty, and each ends before the next begins. -/
structure InOrder (queue : List τ) : Prop where
  nonempty : ∀ t ∈ queue, lo t < hi t
  ordered : queue.Pairwise fun a b => hi a ≤ lo b

/-- An address lies in the range of an element. -/
def Holds (t : τ) (x : Nat) : Prop := lo t ≤ x ∧ x < hi t

instance (t : τ) (x : Nat) : Decidable (Holds lo hi t x) := inferInstanceAs (Decidable (_ ∧ _))

/-- The element in whose range an address lies. -/
def holder (queue : List τ) (x : Nat) : Option τ := queue.find? fun t => Holds lo hi t x

/-- Insert an element before the first one that is not to stand before it. -/
def insertBefore (before : τ → Bool) (t : τ) : List τ → List τ
  | [] => [t]
  | u :: rest => if before u then u :: insertBefore before t rest else t :: u :: rest

variable {lo hi} {queue : List τ} {t u : τ} {x : Nat}

theorem insertBefore_perm (before : τ → Bool) (t : τ) (queue : List τ) :
    (insertBefore before t queue).Perm (t :: queue) := by
  induction queue with
  | nil => exact List.Perm.refl _
  | cons first rest inductionHypothesis =>
      unfold insertBefore
      split
      · exact (inductionHypothesis.cons first).trans (List.Perm.swap t first rest)
      · exact List.Perm.refl _

theorem mem_insertBefore {before : τ → Bool} :
    u ∈ insertBefore before t queue ↔ u = t ∨ u ∈ queue :=
  (insertBefore_perm before t queue).mem_iff.trans List.mem_cons

theorem insertBefore_eq (before : τ → Bool) (t : τ) (queue : List τ) :
    insertBefore before t queue = queue.takeWhile before ++ t :: queue.dropWhile before := by
  induction queue with
  | nil => rfl
  | cons first rest inductionHypothesis =>
      unfold insertBefore
      split
      · rename_i stands
        rw [List.takeWhile_cons_of_pos stands, List.dropWhile_cons_of_pos stands,
          inductionHypothesis, List.cons_append]
      · rename_i stops
        rw [List.takeWhile_cons_of_neg stops, List.dropWhile_cons_of_neg stops, List.nil_append]

/-- Elements are inserted alike whatever else they carry. -/
theorem map_insertBefore {σ : Type} (forget : σ → τ) (before : τ → Bool) (elm : σ)
    (full : List σ) :
    (insertBefore (fun it => before (forget it)) elm full).map forget =
      insertBefore before (forget elm) (full.map forget) := by
  induction full with
  | nil => rfl
  | cons first rest inductionHypothesis =>
      rw [List.map_cons]
      unfold insertBefore
      split
      · rw [List.map_cons, inductionHypothesis]
      · rfl

/-- What is found is in the queue and holds the address. -/
theorem holder_some (found : holder lo hi queue x = some t) : t ∈ queue ∧ Holds lo hi t x := by
  unfold holder at found
  have holds := List.find?_some found
  exact ⟨List.mem_of_find?_eq_some found, of_decide_eq_true holds⟩

theorem holder_eq_none_iff : holder lo hi queue x = none ↔ ∀ t ∈ queue, ¬Holds lo hi t x := by
  unfold holder
  rw [List.find?_eq_none]
  simp only [decide_eq_true_eq]

namespace InOrder

theorem nil : InOrder lo hi [] where
  nonempty := fun _ member => absurd member List.not_mem_nil
  ordered := List.Pairwise.nil

theorem tail (inOrder : InOrder lo hi (t :: queue)) : InOrder lo hi queue where
  nonempty := fun u member => inOrder.nonempty u (List.mem_cons_of_mem t member)
  ordered := inOrder.ordered.of_cons

/-- The first range ends before all others begin. -/
theorem head_le (inOrder : InOrder lo hi (t :: queue)) (member : u ∈ queue) : hi t ≤ lo u :=
  List.rel_of_pairwise_cons inOrder.ordered member

/-- Two ranges that share an address are one. -/
theorem eq_of_holds (inOrder : InOrder lo hi queue) (tMember : t ∈ queue) (uMember : u ∈ queue)
    (tHolds : Holds lo hi t x) (uHolds : Holds lo hi u x) : t = u := by
  obtain ⟨tLower, tUpper⟩ := tHolds
  obtain ⟨uLower, uUpper⟩ := uHolds
  induction queue with
  | nil => exact absurd tMember List.not_mem_nil
  | cons first rest inductionHypothesis =>
      rcases List.mem_cons.mp tMember with rfl | tRest
      · rcases List.mem_cons.mp uMember with rfl | uRest
        · rfl
        · have := inOrder.head_le uRest
          omega
      · rcases List.mem_cons.mp uMember with rfl | uRest
        · have := inOrder.head_le tRest
          omega
        · exact inductionHypothesis inOrder.tail tRest uRest

theorem nodup (inOrder : InOrder lo hi queue) : queue.Nodup := by
  refine List.Pairwise.imp_of_mem ?_ inOrder.ordered
  rintro a b aMember _ le rfl
  have := inOrder.nonempty a aMember
  omega

/-- Different elements have ranges apart from each other. -/
theorem apart (inOrder : InOrder lo hi queue) (tMember : t ∈ queue) (uMember : u ∈ queue)
    (different : t ≠ u) : hi t ≤ lo u ∨ hi u ≤ lo t := by
  by_contra overlap
  have tLong := inOrder.nonempty t tMember
  have uLong := inOrder.nonempty u uMember
  have shared := inOrder.eq_of_holds (x := max (lo t) (lo u)) tMember uMember
    ⟨by omega, by omega⟩ ⟨by omega, by omega⟩
  exact different shared

theorem holder_eq_some_iff (inOrder : InOrder lo hi queue) :
    holder lo hi queue x = some t ↔ t ∈ queue ∧ Holds lo hi t x := by
  refine ⟨holder_some, ?_⟩
  rintro ⟨member, holds⟩
  cases found : holder lo hi queue x with
  | none => exact absurd holds (holder_eq_none_iff.mp found t member)
  | some u =>
      obtain ⟨uMember, uHolds⟩ := holder_some found
      rw [inOrder.eq_of_holds uMember member uHolds holds]

theorem sublist {shorter : List τ} (inOrder : InOrder lo hi queue)
    (sublist : List.Sublist shorter queue) : InOrder lo hi shorter where
  nonempty := fun u member => inOrder.nonempty u (sublist.subset member)
  ordered := inOrder.ordered.sublist sublist

/-- A range that is apart from all others finds its place if the comparison is right. -/
theorem insertBefore {before : τ → Bool} (inOrder : InOrder lo hi queue)
    (nonempty : lo t < hi t) (free : ∀ u ∈ queue, hi u ≤ lo t ∨ hi t ≤ lo u)
    (compares : ∀ u ∈ queue, before u = true ↔ lo u < lo t) :
    InOrder lo hi (insertBefore before t queue) := by
  refine ⟨fun u member => ?_, ?_⟩
  · rcases mem_insertBefore.mp member with rfl | member
    · exact nonempty
    · exact inOrder.nonempty u member
  · induction queue with
    | nil => exact List.pairwise_singleton _ _
    | cons first rest inductionHypothesis =>
        have firstLong := inOrder.nonempty first List.mem_cons_self
        have firstFree := free first List.mem_cons_self
        have firstCompares := compares first List.mem_cons_self
        unfold RangeQueue.insertBefore
        split
        · rename_i stands
          refine List.pairwise_cons.mpr ⟨fun u member => ?_, inductionHypothesis inOrder.tail
            (fun u member => free u (List.mem_cons_of_mem first member))
            fun u member => compares u (List.mem_cons_of_mem first member)⟩
          rcases mem_insertBefore.mp member with rfl | member
          · have := firstCompares.mp stands
            omega
          · exact inOrder.head_le member
        · rename_i stops
          have later : hi t ≤ lo first := by
            have : ¬lo first < lo t := fun less => stops (firstCompares.mpr less)
            omega
          refine List.pairwise_cons.mpr ⟨fun u member => ?_, inOrder.ordered⟩
          rcases List.mem_cons.mp member with rfl | member
          · exact later
          · have := inOrder.head_le member
            omega

/-- The comparison by the signed difference of the addresses is right for an element that is near
all others. -/
theorem insertSigned (inOrder : InOrder lo hi queue) (nonempty : lo t < hi t)
    (free : ∀ u ∈ queue, hi u ≤ lo t ∨ hi t ≤ lo u)
    (near : ∀ u ∈ queue, lo u < lo t + 2 ^ 63 ∧ lo t < lo u + 2 ^ 63) :
    InOrder lo hi
      (RangeQueue.insertBefore (fun u => Word.signedSub (lo u) (lo t) < 0) t queue) := by
  refine inOrder.insertBefore nonempty free fun u member => ?_
  obtain ⟨below, above⟩ := near u member
  rw [decide_eq_true_eq]
  exact Word.signedSub_neg_iff below above

end InOrder

/-- In a queue where pieces took the place of an element, an address outside of the element
keeps its holder. -/
theorem holder_replaced {queue' pieces : List τ} (inOrder : InOrder lo hi queue)
    (inOrder' : InOrder lo hi queue')
    (members : ∀ u, u ∈ queue' ↔ (u ∈ queue ∧ u ≠ t) ∨ u ∈ pieces)
    (inside : ∀ u ∈ pieces, Holds lo hi u x → Holds lo hi t x)
    (outside : ¬Holds lo hi t x) : holder lo hi queue' x = holder lo hi queue x := by
  refine Option.ext fun u => ?_
  rw [inOrder.holder_eq_some_iff, inOrder'.holder_eq_some_iff, members]
  constructor
  · rintro ⟨⟨member, _⟩ | piece, holds⟩
    · exact ⟨member, holds⟩
    · exact absurd (inside u piece holds) outside
  · rintro ⟨member, holds⟩
    exact ⟨Or.inl ⟨member, fun same => outside (same ▸ holds)⟩, holds⟩

/-! ## How much of a range is covered -/

variable (lo hi) in
/-- The number of addresses of `[start, stop)` in the range of an element. -/
def shared (start stop : Nat) (t : τ) : Nat := min stop (hi t) - max start (lo t)

/-- The elements share no more than the whole of a range, and all of it exactly if they cover
it. -/
theorem InOrder.sum_shared {start stop : Nat} (inOrder : InOrder lo hi queue) (le : start ≤ stop) :
    (queue.map (shared lo hi start stop)).sum ≤ stop - start ∧
      ((queue.map (shared lo hi start stop)).sum = stop - start ↔
        ∀ x, start ≤ x → x < stop → ∃ t ∈ queue, Holds lo hi t x) := by
  induction queue generalizing start with
  | nil =>
      refine ⟨Nat.zero_le _, fun none x lower upper => ?_, fun covered => ?_⟩
      · rw [List.map_nil, List.sum_nil] at none
        omega
      · by_contra some
        rw [List.map_nil, List.sum_nil] at some
        obtain ⟨t, member, _⟩ := covered start le_rfl (by omega)
        cases member
  | cons first rest inductionHypothesis =>
      have long := inOrder.nonempty first List.mem_cons_self
      -- behind the first element only the rest counts
      obtain ⟨next, isNext⟩ : ∃ next, next = min stop (max start (hi first)) := ⟨_, rfl⟩
      have same : rest.map (shared lo hi start stop) = rest.map (shared lo hi next stop) := by
        refine List.map_congr_left fun u member => ?_
        have := inOrder.head_le member
        unfold shared
        omega
      have ⟨bound, whole_iff⟩ := inductionHypothesis inOrder.tail (show next ≤ stop by omega)
      have firstBound : shared lo hi start stop first ≤ next - start := by
        unfold shared
        omega
      rw [List.map_cons, List.sum_cons, same]
      refine ⟨by omega, fun total x lower upper => ?_, fun covered => ?_⟩
      · have whole : shared lo hi start stop first = next - start := by omega
        have restWhole := whole_iff.mp (by omega)
        rcases Nat.lt_or_ge x next with here | later
        · refine ⟨first, List.mem_cons_self, ?_, ?_⟩
          · unfold shared at whole
            omega
          · omega
        · obtain ⟨t, member, holds⟩ := restWhole x later upper
          exact ⟨t, List.mem_cons_of_mem first member, holds⟩
      · have restWhole := whole_iff.mpr fun x lower upper => by
          obtain ⟨t, member, holds⟩ := covered x (by omega) upper
          rcases List.mem_cons.mp member with rfl | member
          · obtain ⟨_, below⟩ := holds
            omega
          · exact ⟨t, member, holds⟩
        have whole : shared lo hi start stop first = next - start := by
          rcases Nat.lt_or_ge start next with more | none
          · have begins : lo first ≤ start := by
              obtain ⟨t, member, lower, upper⟩ := covered start le_rfl (by omega)
              rcases List.mem_cons.mp member with rfl | member
              · exact lower
              · have := inOrder.head_le member
                omega
            unfold shared
            omega
          · omega
        omega

end RangeQueue
end Vmem
