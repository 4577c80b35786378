import Mathlib.Logic.Function.Iterate
import Vmem.Library.BitMix

/-!
# The random number generator

`rnd64_r` is a xoshiro256** generator: the state is four words, each call mixes them, and the
all-zero state mixes to itself.  `randomize_r` fills the state from a seed, or, for seed 0, from
the system.
-/

namespace Vmem
namespace Common

/-- `hash64`. -/
def hash64 (x : BitVec 64) : BitVec 64 :=
  let x := x + 0x9e3779b97f4a7c15#64
  let x := (x ^^^ (x >>> 30)) * 0xbf58476d1ce4e5b9#64
  let x := (x ^^^ (x >>> 27)) * 0x94d049bb133111eb#64
  x ^^^ (x >>> 31)

/-- `rng_t`. -/
@[ext] structure Rng where
  s0 : BitVec 64
  s1 : BitVec 64
  s2 : BitVec 64
  s3 : BitVec 64
  deriving DecidableEq, Repr

/-- `rotl`. -/
def rotl (x : BitVec 64) (k : Nat) : BitVec 64 := BitMix.rotateLeft x k

namespace Rng

/-- The state that no call leaves. -/
def zero : Rng := ⟨0, 0, 0, 0⟩

/-- `rnd64_r`: the result and the state afterwards. -/
def rnd64R (s : Rng) : BitVec 64 × Rng :=
  let result := rotl (s.s1 * 5) 7 * 9
  let t := s.s1 <<< 17
  let s2 := s.s2 ^^^ s.s0
  let s3 := s.s3 ^^^ s.s1
  let s1 := s.s1 ^^^ s2
  let s0 := s.s0 ^^^ s3
  (result, { s0 := s0, s1 := s1, s2 := s2 ^^^ t, s3 := rotl s3 45 })

/-- The state after one call of `rnd64_r`. -/
def update (s : Rng) : Rng := s.rnd64R.2

/-- The state after some calls of `rnd64_r`. -/
def afterCalls (calls : Nat) (s : Rng) : Rng := update^[calls] s

/-- The end of `randomize_r`, which fills the state from a seed. -/
def seeded (seed : BitVec 64) : Rng :=
  let s0 := hash64 seed
  let s1 := hash64 s0
  let s2 := hash64 s1
  { s0 := s0, s1 := s1, s2 := s2, s3 := hash64 s2 }

end Rng

/-- What the `getrandom` system call returns, and the state it leaves behind it. -/
structure Getrandom where
  ret : Int
  state : Rng

/-- The bytes of an `rng_t`. -/
def sizeofRng : Int := 32

/-- The call wrote a whole state, and returned how many bytes that are. -/
def Getrandom.Succeeds (call : Getrandom) : Prop := call.ret = sizeofRng

instance (call : Getrandom) : Decidable call.Succeeds := inferInstanceAs (Decidable (_ = _))

/-- `randomize_r` on a system with `SYS_getrandom`.  The call is made for seed 0 only, and so is
`getpid`. -/
def randomizeR (seed : BitVec 64) (call : Getrandom) (getpid : BitVec 32) : Rng :=
  if seed = 0 then
    -- `!syscall(...)`: a returned zero, not a returned length, ends the function here.
    if call.ret = 0 then call.state
    else Rng.seeded (getpid.signExtend 64)
  else Rng.seeded seed

/-! ## The hash -/

theorem hash64_injective : Function.Injective hash64 := by
  have first := BitMix.mul_injective
    (show 0xbf58476d1ce4e5b9#64 * 0x96de1b173f119089#64 = 1#64 by decide)
  have second := BitMix.mul_injective
    (show 0x94d049bb133111eb#64 * 0x319642b2d24d8ec3#64 = 1#64 by decide)
  have steps := (BitMix.xorShiftRight_injective 64 (show 0 < 31 by decide)).comp
    (second.comp ((BitMix.xorShiftRight_injective 64 (show 0 < 27 by decide)).comp
      (first.comp ((BitMix.xorShiftRight_injective 64 (show 0 < 30 by decide)).comp
        (BitMix.add_injective 0x9e3779b97f4a7c15#64)))))
  exact steps

theorem hash64_zero_ne : hash64 0 ≠ 0 := by decide

namespace Rng

/-! ## The update -/

theorem update_zero : update zero = zero := by decide

/-- Each word of the old state is found again from the new one: first what went into `s3`, then
`s0`, then `s1` from its mix with its own shift. -/
theorem update_injective : Function.Injective update := by
  intro x y same
  have word0 : x.s0 ^^^ (x.s3 ^^^ x.s1) = y.s0 ^^^ (y.s3 ^^^ y.s1) := congrArg Rng.s0 same
  have word1 : x.s1 ^^^ (x.s2 ^^^ x.s0) = y.s1 ^^^ (y.s2 ^^^ y.s0) := congrArg Rng.s1 same
  have word2 : x.s2 ^^^ x.s0 ^^^ x.s1 <<< 17 = y.s2 ^^^ y.s0 ^^^ y.s1 <<< 17 :=
    congrArg Rng.s2 same
  have rotated : rotl (x.s3 ^^^ x.s1) 45 = rotl (y.s3 ^^^ y.s1) 45 := congrArg Rng.s3 same
  have mixed3 : x.s3 ^^^ x.s1 = y.s3 ^^^ y.s1 :=
    BitMix.rotateLeft_injective (by decide) rotated
  have s0 : x.s0 = y.s0 := by
    rw [mixed3] at word0
    exact (BitVec.xor_left_inj _).mp word0
  have shifted : x.s1 ^^^ x.s1 <<< 17 = y.s1 ^^^ y.s1 <<< 17 :=
    BitMix.xor_exchange ((BitMix.xor_exchange word1).trans (BitMix.xor_exchange word2))
  have s1 : x.s1 = y.s1 := BitMix.xorShiftLeft_injective 64 (by decide) shifted
  have s3 : x.s3 = y.s3 := by
    rw [s1] at mixed3
    exact (BitVec.xor_left_inj _).mp mixed3
  have s2 : x.s2 = y.s2 := by
    rw [s0, s1] at word1
    exact (BitVec.xor_left_inj _).mp ((BitVec.xor_right_inj _).mp word1)
  exact Rng.ext s0 s1 s2 s3

/-- The words of a state. -/
def words (s : Rng) : BitVec 64 × BitVec 64 × BitVec 64 × BitVec 64 := (s.s0, s.s1, s.s2, s.s3)

theorem words_injective : Function.Injective words := by
  intro x y same
  simp only [words, Prod.mk.injEq] at same
  obtain ⟨s0, s1, s2, s3⟩ := same
  exact Rng.ext s0 s1 s2 s3

instance finite : Finite Rng := Finite.of_injective words words_injective

theorem afterCalls_injective (calls : Nat) : Function.Injective (afterCalls calls) :=
  update_injective.iterate calls

theorem afterCalls_zero_state (calls : Nat) : afterCalls calls zero = zero :=
  Function.iterate_fixed update_zero calls

/-- No run enters the all-zero state. -/
theorem afterCalls_ne_zero {s : Rng} (calls : Nat) (nonzero : s ≠ zero) :
    afterCalls calls s ≠ zero := by
  intro reached
  rw [← afterCalls_zero_state calls] at reached
  exact nonzero (afterCalls_injective calls reached)

/-! ## Seeds -/

theorem seeded_injective : Function.Injective seeded :=
  fun _ _ same => hash64_injective (congrArg Rng.s0 same)

/-- The hash of zero is another word, so the words of a seeded state are not all zero. -/
theorem seeded_ne_zero (seed : BitVec 64) : seeded seed ≠ zero := by
  intro same
  have word0 : hash64 seed = 0 := congrArg Rng.s0 same
  have word1 : hash64 (hash64 seed) = 0 := congrArg Rng.s1 same
  rw [word0] at word1
  exact hash64_zero_ne word1

end Rng

variable {seed : BitVec 64} {call : Getrandom} {getpid : BitVec 32}

theorem randomizeR_of_ne_zero (nonzero : seed ≠ 0) :
    randomizeR seed call getpid = Rng.seeded seed :=
  if_neg nonzero

/-- The lengths that the call returns are not zero, so a successful call ends like a failed one. -/
theorem randomizeR_of_succeeds (success : call.Succeeds) :
    randomizeR 0 call getpid = Rng.seeded (getpid.signExtend 64) := by
  have ret : call.ret = 32 := success
  unfold randomizeR
  rw [if_pos rfl, if_neg (by omega)]

/-- Hash and update are bijections, and the update keeps the all-zero state: no generator with a
nonzero seed gets to that state, and two generators with different nonzero seeds never get to one
state after equally many calls. -/
theorem generator_never_degenerates :
    Function.Bijective hash64 ∧ Function.Bijective Rng.update ∧ Rng.update Rng.zero = Rng.zero ∧
      (∀ (seed : BitVec 64) (call : Getrandom) (getpid : BitVec 32) (calls : Nat), seed ≠ 0 →
        (randomizeR seed call getpid).afterCalls calls ≠ Rng.zero) ∧
      ∀ (first second : BitVec 64) (firstCall secondCall : Getrandom)
        (firstPid secondPid : BitVec 32) (calls : Nat), first ≠ 0 → second ≠ 0 → first ≠ second →
        (randomizeR first firstCall firstPid).afterCalls calls ≠
          (randomizeR second secondCall secondPid).afterCalls calls := by
  refine ⟨Finite.injective_iff_bijective.mp hash64_injective,
    Finite.injective_iff_bijective.mp Rng.update_injective, Rng.update_zero, ?_, ?_⟩
  · intro seed call getpid calls nonzero
    rw [randomizeR_of_ne_zero nonzero]
    exact Rng.afterCalls_ne_zero calls (Rng.seeded_ne_zero seed)
  · intro first second _ _ _ _ calls firstNonzero secondNonzero different same
    rw [randomizeR_of_ne_zero firstNonzero, randomizeR_of_ne_zero secondNonzero] at same
    exact different (Rng.seeded_injective (Rng.afterCalls_injective calls same))

/-- The seeds 1 and 2. -/
theorem generator_never_degenerates_small :
    (randomizeR 1 ⟨0, Rng.zero⟩ 0).afterCalls 1000 ≠ Rng.zero ∧
      (randomizeR 1 ⟨0, Rng.zero⟩ 0).afterCalls 1000 ≠
        (randomizeR 2 ⟨0, Rng.zero⟩ 0).afterCalls 1000 :=
  ⟨generator_never_degenerates.2.2.2.1 1 _ _ _ (by decide),
    generator_never_degenerates.2.2.2.2 1 2 _ _ _ _ _ (by decide) (by decide) (by decide)⟩

/-! ## Seed 0 -/

/-- `getpid` is an `int`; what it returns is not lost on the way to the seed. -/
theorem signExtend_injective :
    Function.Injective fun getpid : BitVec 32 => getpid.signExtend 64 := by
  intro x y same
  have values := congrArg BitVec.toInt same
  rwa [BitVec.toInt_signExtend_of_le (by decide), BitVec.toInt_signExtend_of_le (by decide),
    BitVec.toInt_inj] at values

/-- Seed 0 is random by the process id only.  After two successful calls of `getrandom` the states
differ exactly if the process ids do, whatever bytes the calls delivered; and the bytes become the
state only where they happen to be the hashes of the process id. -/
theorem randomizeR_zero_exact (firstCall secondCall : Getrandom) (firstPid secondPid : BitVec 32)
    (firstSuccess : firstCall.Succeeds) (secondSuccess : secondCall.Succeeds) :
    (randomizeR 0 firstCall firstPid ≠ randomizeR 0 secondCall secondPid ↔
      firstPid ≠ secondPid) ∧
    (randomizeR 0 firstCall firstPid = firstCall.state ↔
      firstCall.state = Rng.seeded (firstPid.signExtend 64)) := by
  rw [randomizeR_of_succeeds firstSuccess, randomizeR_of_succeeds secondSuccess]
  constructor
  · exact (Rng.seeded_injective.comp signExtend_injective).ne_iff
  · exact eq_comm

/-- Processes 1 and 2, with equal bytes. -/
theorem randomizeR_zero_exact_small :
    randomizeR 0 ⟨32, Rng.zero⟩ 1 ≠ randomizeR 0 ⟨32, Rng.zero⟩ 2 :=
  (randomizeR_zero_exact ⟨32, Rng.zero⟩ ⟨32, Rng.zero⟩ 1 2 rfl rfl).1.mpr (by decide)

/-- Two successful calls that deliver different bytes, in processes with one id. -/
theorem randomizeR_zero_collides :
    ∃ (firstCall secondCall : Getrandom) (firstPid secondPid : BitVec 32),
      firstCall.Succeeds ∧ secondCall.Succeeds ∧ firstCall.state ≠ secondCall.state ∧
      randomizeR 0 firstCall firstPid = randomizeR 0 secondCall secondPid :=
  ⟨⟨32, ⟨1, 0, 0, 0⟩⟩, ⟨32, ⟨2, 0, 0, 0⟩⟩, 7, 7, rfl, rfl, by decide, by decide⟩

end Common
end Vmem
