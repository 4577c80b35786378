import Vmem.Jemalloc.RunMap

/-!
# The runs in use

A run map has one run in use at each page where a caller has been given one.  An allocation
adds one such run, freeing takes one away, and merging free runs changes none.
-/

namespace Vmem
namespace Jemalloc

/-! ## The runs in use of a layout -/

/-- The run in use that starts at a page: its size and its use. -/
def liveRun : Nat → List Run → Nat → Option (Nat × RunUse)
  | _, [], _ => none
  | start, run :: rest, page =>
      if page = start then if run.inUse then some (run.pages, run.use) else none
      else liveRun (start + run.pages) rest page

/-- No run of a layout is empty. -/
def NonemptyRuns (layout : List Run) : Prop := ∀ run ∈ layout, 0 < run.pages

section Layouts

variable {start page n need : Nat} {run : Run} {before after layout : List Run} {dirty : Bool}
  {use : RunUse}

theorem Holds.nonemptyRuns {g : Geometry} {chunk : ArenaChunk}
    (holds : Holds g chunk start layout) : NonemptyRuns layout := by
  induction layout generalizing start with
  | nil => simp [NonemptyRuns]
  | cons first rest inductionHypothesis =>
      rw [Holds.cons_iff] at holds
      intro run member
      rcases List.mem_cons.mp member with rfl | member
      · exact holds.1.pages_pos
      · exact inductionHypothesis holds.2 run member

theorem nonemptyRuns_cons :
    NonemptyRuns (run :: after) ↔ 0 < run.pages ∧ NonemptyRuns after := by
  simp [NonemptyRuns]

theorem nonemptyRuns_append :
    NonemptyRuns (before ++ after) ↔ NonemptyRuns before ∧ NonemptyRuns after := by
  simp [NonemptyRuns, or_imp, forall_and]

theorem NonemptyRuns.length_le (nonempty : NonemptyRuns layout) :
    layout.length ≤ pagesOf layout := by
  induction layout with
  | nil => exact le_rfl
  | cons run rest inductionHypothesis =>
      obtain ⟨positive, nonemptyRest⟩ := nonemptyRuns_cons.mp nonempty
      have := inductionHypothesis nonemptyRest
      rw [List.length_cons, pagesOf_cons]
      omega

theorem liveRun_of_lt (early : page < start) : liveRun start layout page = none := by
  induction layout generalizing start with
  | nil => rfl
  | cons run rest inductionHypothesis =>
      rw [liveRun, if_neg (by omega)]
      exact inductionHypothesis (by omega)

theorem liveRun_append (nonempty : NonemptyRuns before) :
    liveRun start (before ++ after) page =
      if page < start + pagesOf before then liveRun start before page
      else liveRun (start + pagesOf before) after page := by
  induction before generalizing start with
  | nil =>
      rw [pagesOf_nil, List.nil_append, Nat.add_zero]
      split
      · next early => exact liveRun_of_lt early
      · rfl
  | cons run rest inductionHypothesis =>
      obtain ⟨positive, nonemptyRest⟩ := nonemptyRuns_cons.mp nonempty
      rw [List.cons_append, liveRun, liveRun, pagesOf_cons]
      by_cases here : page = start
      · have inside : page < start + (run.pages + pagesOf rest) := by omega
        rw [if_pos here, if_pos here, if_pos inside]
      · rw [if_neg here, if_neg here, inductionHypothesis nonemptyRest, Nat.add_assoc]

/-- The run in use at the page where the part behind begins. -/
theorem liveRun_middle (nonempty : NonemptyRuns before) :
    liveRun start (before ++ run :: after) page =
      if page < start + pagesOf before then liveRun start before page
      else if page = start + pagesOf before then
        if run.inUse then some (run.pages, run.use) else none
      else liveRun (start + pagesOf before + run.pages) after page := by
  rw [liveRun_append nonempty]
  rfl

theorem liveRun_restOf (fits : need ≤ n) :
    liveRun (start + need) (restOf n need dirty ++ after) page =
      liveRun (start + n) after page := by
  unfold restOf
  split
  · next smaller =>
      rw [List.singleton_append, liveRun]
      by_cases here : page = start + need
      · rw [if_pos here, liveRun_of_lt (by omega)]
        rfl
      · have ends : start + need + (n - need) = start + n := by omega
        rw [if_neg here]
        simp only [ends]
  · next whole =>
      have same : need = n := by omega
      rw [List.nil_append, same]

/-- No run in use starts inside a run. -/
theorem liveRun_inside (nonempty : NonemptyRuns before) (behind : start + pagesOf before < page)
    (inside : page < start + pagesOf before + run.pages) :
    liveRun start (before ++ run :: after) page = none := by
  rw [liveRun_middle nonempty, if_neg (by omega), if_neg (by omega), liveRun_of_lt inside]

/-- Merging free runs changes no run in use. -/
theorem liveRun_joinFront (nonempty : NonemptyRuns layout) :
    liveRun start (joinFront run layout) page = liveRun start (run :: layout) page := by
  cases layout with
  | nil => rfl
  | cons next rest =>
      by_cases joins : run.mergeable next = true
      · have free : run.use = .free ∧ next.use = .free := by
          simpa [Run.adjoins, Run.isFree] using (Bool.and_eq_true_iff.mp joins).1
        have nextPositive := (nonemptyRuns_cons.mp nonempty).1
        rw [joinFront, if_pos joins]
        simp only [liveRun, Run.inUse, free]
        by_cases here : page = start
        · simp [here]
        · by_cases there : page = start + run.pages
          · rw [if_neg here, if_neg here, if_pos there, liveRun_of_lt (by omega)]
            simp
          · rw [if_neg here, if_neg here, if_neg there, Nat.add_assoc]
      · rw [joinFront, if_neg joins]

theorem nonemptyRuns_coalesce (nonempty : NonemptyRuns layout) :
    NonemptyRuns (coalesce layout) := by
  induction layout with
  | nil => exact nonempty
  | cons run rest inductionHypothesis =>
      obtain ⟨positive, nonemptyRest⟩ := nonemptyRuns_cons.mp nonempty
      have below := inductionHypothesis nonemptyRest
      rw [coalesce]
      cases merged : coalesce rest with
      | nil => exact nonemptyRuns_cons.mpr ⟨positive, by simp [NonemptyRuns]⟩
      | cons next others =>
          rw [merged] at below
          obtain ⟨nextPositive, others_⟩ := nonemptyRuns_cons.mp below
          by_cases joins : run.mergeable next = true
          · rw [joinFront, if_pos joins]
            exact nonemptyRuns_cons.mpr ⟨Nat.add_pos_left positive _, others_⟩
          · rw [joinFront, if_neg joins]
            exact nonemptyRuns_cons.mpr ⟨positive, below⟩

theorem liveRun_coalesce (nonempty : NonemptyRuns layout) :
    liveRun start (coalesce layout) page = liveRun start layout page := by
  induction layout generalizing start with
  | nil => rfl
  | cons run rest inductionHypothesis =>
      obtain ⟨positive, nonemptyRest⟩ := nonemptyRuns_cons.mp nonempty
      rw [coalesce, liveRun_joinFront (nonemptyRuns_coalesce nonemptyRest), liveRun,
        liveRun, inductionHypothesis nonemptyRest]

/-- A free run in front has no run in use. -/
theorem liveRun_free_cons (positive : 0 < n) :
    liveRun start (⟨n, .free, dirty⟩ :: after) page = liveRun (start + n) after page := by
  rw [liveRun]
  by_cases here : page = start
  · rw [if_pos here, liveRun_of_lt (by omega)]
    rfl
  · rw [if_neg here]

/-- Another run in place of one changes the run in use at its first page. -/
theorem liveRun_update (start : Nat) (run other : Run) (after tail : List Run)
    (nonempty : NonemptyRuns before)
    (same : ∀ page, liveRun (start + pagesOf before + other.pages) tail page =
      liveRun (start + pagesOf before + run.pages) after page) :
    liveRun start (before ++ other :: tail) =
      Function.update (liveRun start (before ++ run :: after)) (start + pagesOf before)
        (if other.inUse then some (other.pages, other.use) else none) := by
  funext page
  rw [liveRun_middle nonempty, Function.update_apply, liveRun_middle nonempty, same]
  by_cases here : page = start + pagesOf before
  · rw [if_neg (by omega), if_pos here, if_pos here]
  · rw [if_neg here, if_neg here, if_neg here]

/-- Taking the first pages of a run adds one run in use. -/
theorem liveRun_take (start : Nat) (run : Run) (after : List Run)
    (nonempty : NonemptyRuns before) (fits : need ≤ run.pages)
    (inUse : (⟨need, use, dirty⟩ : Run).inUse = true) :
    liveRun start (before ++ ⟨need, use, dirty⟩ :: (restOf run.pages need dirty ++ after)) =
      Function.update (liveRun start (before ++ run :: after)) (start + pagesOf before)
        (some (need, use)) := by
  rw [liveRun_update start run ⟨need, use, dirty⟩ after _ nonempty fun page => liveRun_restOf fits,
    if_pos inUse]

theorem liveRun_takeWhole (start : Nat) (run : Run) (fits : need ≤ run.pages)
    (inUse : (⟨need, use, dirty⟩ : Run).inUse = true) :
    liveRun start (⟨need, use, dirty⟩ :: restOf run.pages need dirty) =
      Function.update (liveRun start [run]) start (some (need, use)) := by
  have take := liveRun_take start run [] (show NonemptyRuns [] by simp [NonemptyRuns]) fits inUse
  rw [List.nil_append, List.nil_append, List.append_nil, pagesOf_nil, Nat.add_zero] at take
  exact take

/-- Freeing a run takes one run in use away. -/
theorem liveRun_dalloc (nonempty : NonemptyRuns (before ++ run :: after)) :
    liveRun start (coalesce (before ++ ⟨run.pages, .free, dirty⟩ :: after)) =
      Function.update (liveRun start (before ++ run :: after)) (start + pagesOf before) none := by
  obtain ⟨nonemptyBefore, rest⟩ := nonemptyRuns_append.mp nonempty
  obtain ⟨positive, nonemptyAfter⟩ := nonemptyRuns_cons.mp rest
  have freed : NonemptyRuns (before ++ ⟨run.pages, .free, dirty⟩ :: after) :=
    nonemptyRuns_append.mpr ⟨nonemptyBefore, nonemptyRuns_cons.mpr ⟨positive, nonemptyAfter⟩⟩
  funext page
  rw [liveRun_coalesce freed,
    liveRun_update start run ⟨run.pages, .free, dirty⟩ after after nonemptyBefore fun _ => rfl]
  rfl

/-- Freeing the last pages of a run makes the run in use smaller. -/
theorem liveRun_trimTail {first second : Nat} (dirty' : Bool)
    (nonempty : NonemptyRuns (before ++ ⟨first + second, .large, dirty⟩ :: after))
    (firstPositive : 0 < first) (secondPositive : 0 < second) :
    liveRun start
        (coalesce (before ++ ⟨first, .large, dirty⟩ :: ⟨second, .free, dirty'⟩ :: after)) =
      Function.update (liveRun start (before ++ ⟨first + second, .large, dirty⟩ :: after))
        (start + pagesOf before) (some (first, .large)) := by
  obtain ⟨nonemptyBefore, rest⟩ := nonemptyRuns_append.mp nonempty
  have nonemptyAfter := (nonemptyRuns_cons.mp rest).2
  have freed : NonemptyRuns
      (before ++ ⟨first, .large, dirty⟩ :: ⟨second, .free, dirty'⟩ :: after) :=
    nonemptyRuns_append.mpr ⟨nonemptyBefore, nonemptyRuns_cons.mpr ⟨firstPositive,
      nonemptyRuns_cons.mpr ⟨secondPositive, nonemptyAfter⟩⟩⟩
  funext page
  rw [liveRun_coalesce freed, liveRun_update start ⟨first + second, .large, dirty⟩
    ⟨first, .large, dirty⟩ after _ nonemptyBefore fun page => by
      rw [liveRun_free_cons secondPositive, Nat.add_assoc]]
  rfl

/-- Freeing the first pages of a run moves the run in use. -/
theorem liveRun_trimHead {first second : Nat}
    (nonempty : NonemptyRuns (before ++ ⟨first + second, .large, dirty⟩ :: after))
    (firstPositive : 0 < first) (secondPositive : 0 < second) :
    liveRun start (coalesce (before ++ ⟨first, .free, dirty⟩ :: ⟨second, .large, dirty⟩ :: after)) =
      Function.update (Function.update
        (liveRun start (before ++ ⟨first + second, .large, dirty⟩ :: after))
          (start + pagesOf before) none) (start + pagesOf before + first)
        (some (second, .large)) := by
  obtain ⟨nonemptyBefore, rest⟩ := nonemptyRuns_append.mp nonempty
  have nonemptyAfter := (nonemptyRuns_cons.mp rest).2
  have freed : NonemptyRuns
      (before ++ ⟨first, .free, dirty⟩ :: ⟨second, .large, dirty⟩ :: after) :=
    nonemptyRuns_append.mpr ⟨nonemptyBefore, nonemptyRuns_cons.mpr ⟨firstPositive,
      nonemptyRuns_cons.mpr ⟨secondPositive, nonemptyAfter⟩⟩⟩
  have nonemptyHead : NonemptyRuns (before ++ [⟨first, .free, dirty⟩]) :=
    nonemptyRuns_append.mpr ⟨nonemptyBefore, by simpa [NonemptyRuns] using firstPositive⟩
  have moved := liveRun_update start ⟨second, .free, dirty⟩ ⟨second, .large, dirty⟩ after after
    nonemptyHead fun _ => rfl
  have gone := liveRun_update start ⟨first + second, .large, dirty⟩ ⟨first, .free, dirty⟩ after
    (⟨second, .free, dirty⟩ :: after) nonemptyBefore
    fun page => by rw [liveRun_free_cons secondPositive, Nat.add_assoc]
  funext page
  rw [liveRun_coalesce freed, List.append_cons, moved, ← List.append_cons, gone]
  simp [Run.inUse, Nat.add_assoc]

/-- Freeing the run of a bin takes one run in use away. -/
theorem liveRun_binRun {used : Nat} (nonempty : NonemptyRuns (before ++ ⟨n, use, dirty⟩ :: after))
    (positive : 0 < used) :
    liveRun start (coalesce (before ++ Books.binRunFreed n used dirty ++ after)) =
      Function.update (liveRun start (before ++ ⟨n, use, dirty⟩ :: after))
        (start + pagesOf before) none := by
  obtain ⟨nonemptyBefore, rest⟩ := nonemptyRuns_append.mp nonempty
  obtain ⟨nPositive, nonemptyAfter⟩ := nonemptyRuns_cons.mp rest
  rw [List.append_assoc]
  unfold Books.binRunFreed
  split
  · next trims =>
      have restPositive : 0 < n - used := by omega
      have freed : NonemptyRuns (before ++ ([⟨used, .free, true⟩, ⟨n - used, .free, false⟩] ++
          after)) :=
        nonemptyRuns_append.mpr ⟨nonemptyBefore, nonemptyRuns_cons.mpr ⟨positive,
          nonemptyRuns_cons.mpr ⟨restPositive, nonemptyAfter⟩⟩⟩
      have ends : used + (n - used) = n := by omega
      funext page
      rw [liveRun_coalesce freed]
      exact congrFun (liveRun_update start ⟨n, use, dirty⟩ ⟨used, .free, true⟩ after
        (⟨n - used, .free, false⟩ :: after) nonemptyBefore fun page => by
          rw [liveRun_free_cons restPositive, Nat.add_assoc, ends]) page
  · have freed : NonemptyRuns (before ++ ([⟨n, .free, true⟩] ++ after)) :=
      nonemptyRuns_append.mpr ⟨nonemptyBefore, nonemptyRuns_cons.mpr ⟨nPositive, nonemptyAfter⟩⟩
    funext page
    rw [liveRun_coalesce freed]
    exact congrFun (liveRun_update start ⟨n, use, dirty⟩ ⟨n, .free, true⟩ after after
      nonemptyBefore fun page => rfl) page

/-- Extending a run makes the run in use larger. -/
theorem liveRun_grown (start : Nat) {wanted extra : Nat} {grown : List Run}
    (possible : Books.Grown n wanted extra dirty after grown)
    (nonempty : NonemptyRuns (before ++ ⟨n, .large, dirty⟩ :: after)) :
    ∃ size, liveRun start (before ++ grown) =
      Function.update (liveRun start (before ++ ⟨n, .large, dirty⟩ :: after))
        (start + pagesOf before) (some (size, .large)) := by
  obtain ⟨nonemptyBefore, rest⟩ := nonemptyRuns_append.mp nonempty
  cases possible with
  | extended m dirtyNext behind enough =>
      have positive := (nonemptyRuns_cons.mp (nonemptyRuns_cons.mp rest).2).1
      have fits : min m (wanted + extra - n) ≤ m := by omega
      refine ⟨n + min m (wanted + extra - n), ?_⟩
      exact liveRun_update start ⟨n, .large, dirty⟩
        ⟨n + min m (wanted + extra - n), .large, dirty || dirtyNext⟩ _ _ nonemptyBefore
        fun page => by
          rw [liveRun_free_cons positive, ← Nat.add_assoc, liveRun_restOf fits]

end Layouts

namespace RunMap

variable {g : Geometry} {map map' : RunMap} {c : Nat} {elm : MapElm}

variable (g) in
/-- The run in use that starts at a page of a chunk. -/
def live (map : RunMap) (elm : MapElm) : Option (Nat × RunUse) :=
  if elm.chunk ∈ map.owned then liveRun g.mapBias (map.layouts elm.chunk) elm.pageind else none

/-- Other runs in one chunk change what is in use there. -/
theorem live_put {layout : List Run} {page : Nat} {value : Option (Nat × RunUse)}
    (owns : c ∈ map.owned)
    (change : liveRun g.mapBias layout =
      Function.update (liveRun g.mapBias (map.layouts c)) page value) :
    (map.put c layout).live g = Function.update (map.live g) ⟨c, page⟩ value := by
  funext elm
  obtain ⟨chunk, pageind⟩ := elm
  by_cases same : chunk = c
  · subst same
    by_cases here : pageind = page
    · simp [live, put, owns, change, here]
    · simp [live, put, owns, change, here]
  · have apart : (⟨chunk, pageind⟩ : MapElm) ≠ ⟨c, page⟩ := by simp [same]
    simp [live, put, same, apart]

/-- The runs in use once an allocation has ended: one more where it has found room. -/
def liveWith (live : MapElm → Option (Nat × RunUse)) (run : Nat × RunUse) :
    Arena.Outcome → MapElm → Option (Nat × RunUse)
  | .run elm => Function.update live elm (some run)
  | .none | .needsChunk => live

section Allocation

variable {need : Nat} {use : RunUse} {outcome : Arena.Outcome}

/-- Taking pages of a free run adds one run in use. -/
theorem Takes.live (takes : Takes g need use map map' elm)
    (nonempty : ∀ c ∈ map.owned, NonemptyRuns (map.layouts c))
    (inUse : ∀ dirty, (⟨need, use, dirty⟩ : Run).inUse = true) :
    map'.live g = Function.update (map.live g) elm (some (need, use)) := by
  cases takes with
  | @best c n before after dirty owns layout best =>
      have nonemptyBefore := (nonemptyRuns_append.mp (layout ▸ nonempty c owns)).1
      refine live_put owns ?_
      rw [layout]
      exact liveRun_take _ ⟨n, .free, dirty⟩ after nonemptyBefore best.fits (inUse dirty)

/-- An allocation adds one run in use, unless it asks for a chunk. -/
theorem Allocates.live (allocates : Allocates g need use map map' outcome)
    (fits : need ≤ g.maxPages) (owns : ∀ c, map.spare = some c → c ∈ map.owned)
    (nonempty : ∀ c ∈ map.owned, NonemptyRuns (map.layouts c))
    (inUse : ∀ dirty, (⟨need, use, dirty⟩ : Run).inUse = true) :
    map'.live g = liveWith (map.live g) (need, use) outcome := by
  cases allocates with
  | fits takes => exact takes.live nonempty inUse
  | @spare c dirty noneFits spare layout =>
      refine live_put (owns c spare) ?_
      rw [layout]
      exact liveRun_takeWhole _ (wholeRun g .held dirty) fits (inUse dirty)
  | asks => rfl

/-- An allocation that goes on adds one run in use, unless it fails. -/
theorem Resumes.live {fresh : Option Nat} (resumes : Resumes g need use map fresh map' outcome)
    (fits : need ≤ g.maxPages) (nonempty : ∀ c ∈ map.owned, NonemptyRuns (map.layouts c))
    (inUse : ∀ dirty, (⟨need, use, dirty⟩ : Run).inUse = true) :
    map'.live g = liveWith (map.live g) (need, use) outcome := by
  cases resumes with
  | @fresh c new =>
      have whole := liveRun_takeWhole g.mapBias (wholeRun g .free false) fits (inUse false)
      funext elm
      obtain ⟨chunk, pageind⟩ := elm
      by_cases same : chunk = c
      · subst same
        have here := congrFun whole pageind
        simp only [wholeRun] at here
        by_cases first : pageind = g.mapBias
        · subst first
          simp [RunMap.live, liveWith, put, here]
        · have rest : liveRun g.mapBias [⟨g.maxPages, .free, false⟩] pageind = none := by
            simp [liveRun, first]
          simp [RunMap.live, liveWith, put, here, new, first, rest]
      · have apart : (⟨chunk, pageind⟩ : MapElm) ≠ ⟨c, g.mapBias⟩ := by simp [same]
        simp [RunMap.live, liveWith, put, same, apart]
  | fits takes => exact takes.live nonempty inUse
  | fails => rfl

/-- Nobody used the run that an allocation takes. -/
theorem Takes.idle (takes : Takes g need use map map' elm)
    (nonempty : ∀ c ∈ map.owned, NonemptyRuns (map.layouts c)) : map.live g elm = none := by
  cases takes with
  | @best c n before after dirty owns layout best =>
      have nonemptyBefore := (nonemptyRuns_append.mp (layout ▸ nonempty c owns)).1
      have here : liveRun g.mapBias (before ++ ⟨n, .free, dirty⟩ :: after)
          (g.mapBias + pagesOf before) = none := by
        rw [liveRun_middle nonemptyBefore, if_neg (by omega), if_pos rfl]
        rfl
      simp [RunMap.live, owns, layout, here]

theorem Allocates.idle (allocates : Allocates g need use map map' (.run elm))
    (nonempty : ∀ c ∈ map.owned, NonemptyRuns (map.layouts c)) : map.live g elm = none := by
  cases allocates with
  | fits takes => exact takes.idle nonempty
  | spare none spare layout => simp [RunMap.live, layout, liveRun, wholeRun, Run.inUse]

theorem Resumes.idle {fresh : Option Nat} (resumes : Resumes g need use map fresh map' (.run elm))
    (nonempty : ∀ c ∈ map.owned, NonemptyRuns (map.layouts c)) : map.live g elm = none := by
  cases resumes with
  | fresh new => simp [RunMap.live, new]
  | fits takes => exact takes.idle nonempty

theorem Allocates.owned (allocates : Allocates g need use map map' outcome) :
    map'.owned = map.owned := by
  cases allocates with
  | fits takes => cases takes; rfl
  | spare => rfl
  | asks => rfl

theorem Resumes.owned {fresh : Option Nat} (resumes : Resumes g need use map fresh map' outcome) :
    map'.owned = map.owned ∪ fresh.toFinset := by
  cases resumes with
  | fresh new => simp
  | fits takes =>
      cases takes
      simp [put]
  | fails => simp

end Allocation

/-- Freeing in one chunk changes what is in use there, and giving a chunk back nothing. -/
theorem Frees.live {merged : List Run} {dirty : Bool} {given : Option Nat}
    (frees : Frees g c merged dirty map map' given) (owns : c ∈ map.owned)
    (notSpare : map.spare ≠ some c)
    (spareHeld : ∀ s, map.spare = some s → ∃ dirty, map.layouts s = [wholeRun g .held dirty]) :
    map'.live g = (map.put c merged).live g := by
  cases frees with
  | kept => rfl
  | spared whole =>
      have idle (use : RunUse) (dirty : Bool) (marked : use = .free ∨ use = .held) (page : Nat) :
          liveRun g.mapBias [wholeRun g use dirty] page = none := by
        rcases marked with rfl | rfl <;> simp [liveRun, wholeRun, Run.inUse]
      funext elm
      obtain ⟨chunk, pageind⟩ := elm
      by_cases same : chunk = c
      · subst same
        simp [RunMap.live, RunMap.put, owns, notSpare, whole, idle]
      · cases spare : map.spare with
        | none => simp [RunMap.live, RunMap.put, same]
        | some s =>
            obtain ⟨dirty', held⟩ := spareHeld s spare
            by_cases isSpare : chunk = s
            · subst isSpare
              simp [RunMap.live, RunMap.put, same, held, idle]
            · simp [RunMap.live, RunMap.put, same, isSpare]

/-- Other runs in one chunk change what is in use at two of its pages. -/
theorem live_put_two {layout : List Run} {first second : Nat}
    {firstValue secondValue : Option (Nat × RunUse)} (owns : c ∈ map.owned)
    (change : liveRun g.mapBias layout = Function.update (Function.update
      (liveRun g.mapBias (map.layouts c)) first firstValue) second secondValue) :
    (map.put c layout).live g = Function.update
      (Function.update (map.live g) ⟨c, first⟩ firstValue) ⟨c, second⟩ secondValue := by
  funext elm
  obtain ⟨chunk, pageind⟩ := elm
  by_cases same : chunk = c
  · subst same
    simp [live, put, owns, change, Function.update_apply]
  · have apartFirst : (⟨chunk, pageind⟩ : MapElm) ≠ ⟨c, first⟩ := by simp [same]
    have apartSecond : (⟨chunk, pageind⟩ : MapElm) ≠ ⟨c, second⟩ := by simp [same]
    simp [live, put, same, apartFirst, apartSecond]

end RunMap

end Jemalloc
end Vmem
