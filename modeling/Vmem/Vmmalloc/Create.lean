import Vmem.Library.Word

/-!
# Creating the pool of libvmmalloc

`libvmmalloc_create` opens the file that `VMMALLOC_POOL_DIR` names, maps it, writes
the header of the pool and hands the rest to jemalloc.  The outcomes of `open`,
`mmap` and `je_vmem_pool_create` are given; an access to memory that is not mapped
ends the process.  `util_range_none`, whose failure is ignored, changes permissions
only and is left out, and the file is taken to be as long as its mapping.
-/

namespace Vmem
namespace Vmmalloc

/-- `VMMALLOC_MIN_POOL`. -/
def vmmallocMinPool : Nat := 1024 * 1024 * 14

/-- `MAP_FAILED`. -/
def mapFailed : Nat := Word.modulus - 1

/-- `sizeof (struct pool_hdr)`. -/
def poolHdrSize : Nat := 4096

/-- `VMEM_HDR_SIG`, with the terminating zero. -/
def vmemHdrSig : List UInt8 := [0x56, 0x4d, 0x45, 0x4d, 0x20, 0x20, 0x20, 0]

/-- `struct vmem`. -/
structure VmemStruct where
  hdr : List UInt8
  addr : Nat
  size : Nat
  callerMapped : Nat

/-- A mapped range of the address space, with the part of the file it shows. -/
structure Region where
  addr : Nat
  len : Nat
  file : String
  offset : Nat
  deriving DecidableEq

/-- The process: its open files, its mappings, `Fd` and the structures in memory. -/
structure Space where
  descriptors : List (Int × String)
  regions : List Region
  fd : Int
  structs : Nat → VmemStruct

/-- The outcomes of the calls that `libvmmalloc_create` makes. -/
structure Calls where
  /-- The descriptor, or -1. -/
  openResult : Option Int
  /-- The address, or `MAP_FAILED`. -/
  mmapResult : Option Nat
  /-- Whether `je_vmem_pool_create` returns a pool. -/
  poolCreate : Bool

namespace Region

/-- What `munmap` leaves of a mapping. -/
def unmap (r : Region) (addr len : Nat) : List Region :=
  (if r.addr < addr then [{ r with len := min r.len (addr - r.addr) }] else []) ++
    (if addr + len < r.addr + r.len then
      let first := max r.addr (addr + len)
      [{ r with
        addr := first
        len := r.addr + r.len - first
        offset := r.offset + (first - r.addr) }]
    else [])

/-- The mapping and the range have no byte in common. -/
def Apart (r : Region) (addr len : Nat) : Prop := r.addr + r.len ≤ addr ∨ addr + len ≤ r.addr

end Region

namespace Space

/-- The bytes belong to one mapping. -/
def Mapped (sp : Space) (addr len : Nat) : Prop :=
  ∃ r ∈ sp.regions, r.addr ≤ addr ∧ addr + len ≤ r.addr + r.len

instance (sp : Space) (addr len : Nat) : Decidable (sp.Mapped addr len) :=
  inferInstanceAs (Decidable (∃ r ∈ sp.regions, r.addr ≤ addr ∧ addr + len ≤ r.addr + r.len))

/-- Change the structure at `vmp`. -/
def update (sp : Space) (vmp : Nat) (change : VmemStruct → VmemStruct) : Space :=
  { sp with
    structs := fun address =>
      if address = vmp then change (sp.structs address) else sp.structs address }

/-- Write a field of the structure at `vmp`.  A write to memory that is not mapped
raises `SIGSEGV` at its address. -/
def store (sp : Space) (vmp offset len : Nat) (change : VmemStruct → VmemStruct) :
    Except Nat Space :=
  let address := Word.add vmp offset
  if sp.Mapped address len then .ok (sp.update vmp change) else .error address

/-- Read a field of the structure at `vmp`. -/
def load (sp : Space) (vmp offset len : Nat) (field : VmemStruct → Nat) : Except Nat Nat :=
  let address := Word.add vmp offset
  if sp.Mapped address len then .ok (field (sp.structs vmp)) else .error address

/-- `munmap`. -/
def utilUnmap (sp : Space) (addr len : Nat) : Space :=
  { sp with regions := sp.regions.flatMap fun r => r.unmap addr len }

/-- `Fd = open(dir, O_RDWR)`. -/
def openDir (sp : Space) (dir : String) : Option Int → Space
  | some descriptor =>
      { sp with fd := descriptor, descriptors := (descriptor, dir) :: sp.descriptors }
  | none => { sp with fd := -1 }

/-- `mmap(NULL, size, PROT_READ | PROT_WRITE, MAP_SHARED, Fd, 0)`. -/
def mapShared (sp : Space) (dir : String) (size : Nat) : Option Nat → Space × Nat
  | some addr => ({ sp with regions := ⟨addr, size, dir, 0⟩ :: sp.regions }, addr)
  | none => (sp, mapFailed)

end Space

/-- The stores that prepare the header. -/
def writeHeader (sp : Space) (vmp size : Nat) : Except Nat Space := do
  let sp ← sp.store vmp 0 poolHdrSize fun v => { v with hdr := List.replicate poolHdrSize 0 }
  let sp ← sp.store vmp 0 vmemHdrSig.length fun v =>
    { v with hdr := vmemHdrSig ++ v.hdr.drop vmemHdrSig.length }
  let sp ← sp.store vmp poolHdrSize 8 fun v => { v with addr := vmp }
  let sp ← sp.store vmp (poolHdrSize + 8) 8 fun v => { v with size := size }
  sp.store vmp (poolHdrSize + 16) 4 fun v => { v with callerMapped := 0 }

/-- `libvmmalloc_create`.  An error is a fault, with its address. -/
def libvmmallocCreate (pagesize : Nat) (calls : Calls) (sp : Space) (dir : String) (size : Nat) :
    Except Nat (Space × Option Nat) :=
  if size < vmmallocMinPool then .ok (sp, none)
  else do
    -- silently enforce multiple of page size
    let size := Word.ceil size pagesize
    let sp := sp.openDir dir calls.openResult
    -- a failure is logged, and `addr` is used all the same
    let (sp, addr) := sp.mapShared dir size calls.mmapResult
    let sp ← writeHeader sp addr size
    if calls.poolCreate then .ok (sp, some addr)
    else
      let vmpAddr ← sp.load addr poolHdrSize 8 VmemStruct.addr
      let vmpSize ← sp.load addr (poolHdrSize + 8) 8 VmemStruct.size
      .ok (sp.utilUnmap vmpAddr vmpSize, none)

/-! ## All or nothing -/

/-- The header as it should be. -/
def initialHeader (addr size : Nat) : VmemStruct where
  hdr := vmemHdrSig ++ List.replicate (poolHdrSize - vmemHdrSig.length) 0
  addr := addr
  size := size
  callerMapped := 0

/-- The whole pool, or nothing left behind; and no access outside a mapping. -/
def AllOrNothing (pagesize : Nat) (calls : Calls) (sp : Space) (dir : String) (size : Nat) : Prop :=
  match libvmmallocCreate pagesize calls sp dir size with
  | .error _ => False
  | .ok (after, none) => after.regions = sp.regions ∧ after.descriptors = sp.descriptors
  | .ok (after, some addr) =>
      calls.openResult = some after.fd ∧ calls.mmapResult = some addr ∧ calls.poolCreate = true ∧
        (after.fd, dir) ∈ after.descriptors ∧
        ⟨addr, Word.ceil size pagesize, dir, 0⟩ ∈ after.regions ∧
        after.structs addr = initialHeader addr (Word.ceil size pagesize)

/-- Mappings are not empty and do not reach `MAP_FAILED`. -/
def Space.Valid (sp : Space) : Prop := ∀ r ∈ sp.regions, 0 < r.len ∧ r.addr + r.len ≤ mapFailed

/-- What `mmap` promises: it succeeds only for an open file and a length that is not
zero, and the range it returns is free and does not reach `MAP_FAILED`. -/
structure Calls.Lawful (calls : Calls) (sp : Space) (size : Nat) : Prop where
  opened : calls.mmapResult.isSome → calls.openResult.isSome
  positive : calls.mmapResult.isSome → 0 < size
  within : ∀ addr, calls.mmapResult = some addr → addr + size ≤ mapFailed
  apart : ∀ addr, calls.mmapResult = some addr → ∀ r ∈ sp.regions, r.Apart addr size

section

variable {sp : Space} {pagesize size : Nat} {calls : Calls} {dir : String}

/-- Unmapping leaves a mapping that is apart from the range alone. -/
theorem Region.unmap_of_apart {r : Region} {addr len : Nat} (nonempty : 0 < r.len)
    (apart : r.Apart addr len) : r.unmap addr len = [r] := by
  obtain ⟨start, length, file, offset⟩ := r
  unfold Region.Apart at apart
  simp only at nonempty apart
  unfold Region.unmap
  obtain before | after := apart
  · rw [if_pos (show start < addr by omega), if_neg (show ¬addr + len < start + length by omega)]
    rw [Nat.min_eq_left (show length ≤ addr - start by omega)]
    rfl
  · rw [if_neg (show ¬start < addr by omega), if_pos (show addr + len < start + length by omega)]
    simp only [List.nil_append, Nat.max_eq_left after, Nat.add_sub_cancel_left, Nat.sub_self,
      Nat.add_zero]

/-- Unmapping a mapping leaves nothing of it. -/
theorem Region.unmap_self (r : Region) : r.unmap r.addr r.len = [] := by
  simp [Region.unmap]

/-- Rounding up wraps to zero or does not lose anything. -/
theorem ceil_eq_zero_or_le (positive : 0 < pagesize) (word : pagesize ≤ Word.modulus)
    (fits : size < Word.modulus) :
    Word.ceil size pagesize = 0 ∨ size ≤ Word.ceil size pagesize := by
  unfold Word.ceil Word.floor
  by_cases wraps : Word.modulus ≤ size + (pagesize - 1)
  · left
    rw [Word.add_eq_of_wraps fits (by omega) wraps, Nat.div_eq_of_lt (by omega), Nat.zero_mul]
  · right
    rw [Word.add_eq (by omega)]
    have split := Nat.div_add_mod (size + (pagesize - 1)) pagesize
    have rest := Nat.mod_lt (size + (pagesize - 1)) positive
    rw [Nat.mul_comm] at split
    omega

/-- In a region that is large enough the header is written. -/
theorem writeHeader_of_mapped (r : Region) (vmp : Nat) (member : r ∈ sp.regions)
    (starts : r.addr = vmp)
    (large : poolHdrSize + 20 ≤ r.len) (within : r.addr + r.len ≤ mapFailed) :
    writeHeader sp vmp size = .ok (sp.update vmp fun _ => initialHeader vmp size) := by
  have stores : ∀ (sp' : Space) (offset len : Nat) (change : VmemStruct → VmemStruct),
      sp'.regions = sp.regions → offset + len ≤ poolHdrSize + 20 →
      sp'.store vmp offset len change = .ok (sp'.update vmp change) := by
    intro sp' offset len change same small
    have address : Word.add vmp offset = vmp + offset := by
      apply Word.add_eq
      unfold mapFailed at within
      have := Word.modulus_eq
      omega
    have mapped : sp'.Mapped (vmp + offset) len := ⟨r, same ▸ member, by omega, by omega⟩
    unfold Space.store
    rw [address, if_pos mapped]
  unfold writeHeader
  rw [stores sp 0 poolHdrSize _ rfl (by decide)]
  dsimp only [bind, Except.bind]
  rw [stores (sp.update vmp _) 0 vmemHdrSig.length _ rfl (by decide)]
  dsimp only
  rw [stores ((sp.update vmp _).update vmp _) poolHdrSize 8 _ rfl (by decide)]
  dsimp only
  rw [stores (((sp.update vmp _).update vmp _).update vmp _) (poolHdrSize + 8) 8 _ rfl (by decide)]
  dsimp only
  rw [stores ((((sp.update vmp _).update vmp _).update vmp _).update vmp _)
    (poolHdrSize + 16) 4 _ rfl
    (by decide)]
  unfold Space.update
  congr 2
  funext address
  by_cases here : address = vmp
  · simp [here, initialHeader]
  · simp [here]

/-- Nothing can be written at `MAP_FAILED`. -/
theorem writeHeader_mapFailed (valid : sp.Valid) :
    writeHeader sp mapFailed size = .error mapFailed := by
  have address : Word.add mapFailed 0 = mapFailed := by
    apply Word.add_eq
    unfold mapFailed
    have := Word.modulus_eq
    omega
  have unmapped : ¬sp.Mapped mapFailed poolHdrSize := by
    rintro ⟨r, member, _, reaches⟩
    have inside := (valid r member).2
    unfold poolHdrSize at reaches
    omega
  unfold writeHeader Space.store
  rw [address, if_neg unmapped]
  rfl

/-- The fields that `util_unmap` is given can be read back. -/
theorem Space.load_of_mapped (r : Region) (vmp : Nat) {offset len : Nat}
    {field : VmemStruct → Nat} (member : r ∈ sp.regions) (starts : r.addr = vmp)
    (large : offset + len ≤ r.len)
    (within : r.addr + r.len ≤ mapFailed) :
    sp.load vmp offset len field = .ok (field (sp.structs vmp)) := by
  have address : Word.add vmp offset = vmp + offset := by
    apply Word.add_eq
    unfold mapFailed at within
    have := Word.modulus_eq
    omega
  have mapped : sp.Mapped (vmp + offset) len := ⟨r, member, by omega, by omega⟩
  unfold Space.load
  rw [address, if_pos mapped]

/-- `util_unmap` takes away the new mapping and nothing else. -/
theorem Space.utilUnmap_regions {r : Region} (valid : sp.Valid)
    (apart : ∀ other ∈ sp.regions, other.Apart r.addr r.len) :
    ((r :: sp.regions).flatMap fun other => other.unmap r.addr r.len) = sp.regions := by
  rw [List.flatMap_cons, Region.unmap_self, List.nil_append]
  have each : ∀ regions : List Region, (∀ other ∈ regions, other ∈ sp.regions) →
      (regions.flatMap fun other => other.unmap r.addr r.len) = regions := by
    intro regions
    induction regions with
    | nil => exact fun _ => rfl
    | cons first rest inductionHypothesis =>
        intro members
        have member := members first List.mem_cons_self
        rw [List.flatMap_cons, Region.unmap_of_apart (valid first member).1 (apart first member),
          inductionHypothesis fun other also => members other (List.mem_cons_of_mem _ also)]
        rfl
  exact each sp.regions fun _ member => member

/-- If `mmap` fails the header is written to `MAP_FAILED`. -/
theorem libvmmallocCreate_mmap_failed (valid : sp.Valid) (large : vmmallocMinPool ≤ size)
    (failed : calls.mmapResult = none) :
    libvmmallocCreate pagesize calls sp dir size = .error mapFailed := by
  have valid' : (sp.openDir dir calls.openResult).Valid := by
    cases calls.openResult <;> exact valid
  unfold libvmmallocCreate
  rw [if_neg (by omega), failed]
  simp only [Space.mapShared]
  rw [writeHeader_mapFailed valid']
  rfl

/-- If `mmap` succeeds the mapping is complete, and it is taken away again if
`je_vmem_pool_create` fails. -/
theorem libvmmallocCreate_mapped (valid : sp.Valid) (large : vmmallocMinPool ≤ size)
    (positive : 0 < pagesize) (word : pagesize ≤ Word.modulus) (fits : size < Word.modulus)
    (lawful : calls.Lawful sp (Word.ceil size pagesize)) {descriptor : Int} {addr : Nat}
    (opened : calls.openResult = some descriptor) (mapped : calls.mmapResult = some addr) :
    libvmmallocCreate pagesize calls sp dir size =
      let region : Region := ⟨addr, Word.ceil size pagesize, dir, 0⟩
      let after : Space :=
        { Space.update sp addr fun _ => initialHeader addr (Word.ceil size pagesize) with
          fd := descriptor
          descriptors := (descriptor, dir) :: sp.descriptors }
      if calls.poolCreate then .ok ({ after with regions := region :: sp.regions }, some addr)
      else .ok (after, none) := by
  have length : vmmallocMinPool ≤ Word.ceil size pagesize := by
    have nonzero := lawful.positive (by rw [mapped]; rfl)
    obtain zero | le := ceil_eq_zero_or_le positive word fits <;> omega
  have within := lawful.within addr mapped
  have apart := lawful.apart addr mapped
  have header : poolHdrSize + 20 ≤ Word.ceil size pagesize :=
    Nat.le_trans (by decide) length
  unfold libvmmallocCreate
  rw [if_neg (by omega), opened, mapped]
  generalize Word.ceil size pagesize = len at within apart header
  simp only [Space.openDir, Space.mapShared]
  rw [writeHeader_of_mapped ⟨addr, len, dir, 0⟩ addr List.mem_cons_self rfl header within]
  dsimp only [bind, Except.bind]
  split
  · rfl
  · rw [Space.load_of_mapped ⟨addr, len, dir, 0⟩ addr List.mem_cons_self rfl
      (show poolHdrSize + 8 ≤ len by omega) within]
    dsimp only
    rw [Space.load_of_mapped ⟨addr, len, dir, 0⟩ addr List.mem_cons_self rfl
      (show poolHdrSize + 8 + 8 ≤ len by omega) within]
    simp only [Space.utilUnmap, Space.update, if_true, initialHeader]
    rw [Space.utilUnmap_regions (r := ⟨addr, len, dir, 0⟩) valid apart]

/-- The pool is created as a whole or not at all exactly if the size is refused or
every call succeeds. -/
theorem create_all_or_nothing_iff (valid : sp.Valid) (positive : 0 < pagesize)
    (word : pagesize ≤ Word.modulus) (fits : size < Word.modulus)
    (lawful : calls.Lawful sp (Word.ceil size pagesize)) :
    AllOrNothing pagesize calls sp dir size ↔
      size < vmmallocMinPool ∨
        (calls.openResult.isSome ∧ calls.mmapResult.isSome ∧ calls.poolCreate = true) := by
  unfold AllOrNothing
  by_cases small : size < vmmallocMinPool
  · have refused : libvmmallocCreate pagesize calls sp dir size = .ok (sp, none) := by
      unfold libvmmallocCreate
      rw [if_pos small]
    rw [refused]
    simp [small]
  · have large : vmmallocMinPool ≤ size := by omega
    cases mapped : calls.mmapResult with
    | none =>
        rw [libvmmallocCreate_mmap_failed valid large mapped]
        simp [small]
    | some addr =>
        have opened := lawful.opened (by rw [mapped]; rfl)
        obtain ⟨descriptor, opened⟩ := Option.isSome_iff_exists.mp opened
        rw [libvmmallocCreate_mapped valid large positive word fits lawful opened mapped]
        cases pool : calls.poolCreate with
        | true => simp [opened, Space.update]
        | false => simp [small, Space.update]

theorem create_all_or_nothing_mapped :
    AllOrNothing 4096 ⟨some 3, some 0x7f0000000000, true⟩ ⟨[], [], 0, fun _ => ⟨[], 0, 0, 0⟩⟩
      "/mnt/pmem/pool" (vmmallocMinPool + 1) := by
  have rounded : Word.ceil (vmmallocMinPool + 1) 4096 = vmmallocMinPool + 4096 := by decide +kernel
  refine (create_all_or_nothing_iff (by rintro r ⟨⟩) (by decide) (by decide +kernel)
    (by decide +kernel) ?_).mpr (Or.inr ⟨rfl, rfl, rfl⟩)
  rw [rounded]
  refine ⟨fun _ => rfl, fun _ => by decide, ?_, ?_⟩
  · intro addr same
    injection same with same
    subst same
    decide +kernel
  · rintro addr _ r ⟨⟩

/-- A file that cannot be opened makes the process write to `MAP_FAILED`; a pool that
jemalloc refuses leaves its descriptor open. -/
theorem create_not_all_or_nothing :
    ¬AllOrNothing 4096 ⟨none, none, true⟩ ⟨[], [], 0, fun _ => ⟨[], 0, 0, 0⟩⟩ "/mnt/pmem/pool"
        vmmallocMinPool ∧
      ¬AllOrNothing 4096 ⟨some 3, some 0x7f0000000000, false⟩
        ⟨[], [], 0, fun _ => ⟨[], 0, 0, 0⟩⟩ "/mnt/pmem/pool" vmmallocMinPool := by
  have faulted : libvmmallocCreate 4096 ⟨none, none, true⟩ ⟨[], [], 0, fun _ => ⟨[], 0, 0, 0⟩⟩
      "/mnt/pmem/pool" vmmallocMinPool = .error mapFailed :=
    libvmmallocCreate_mmap_failed (by rintro r ⟨⟩) (Nat.le_refl _) rfl
  have left : (libvmmallocCreate 4096 ⟨some 3, some 0x7f0000000000, false⟩
      ⟨[], [], 0, fun _ => ⟨[], 0, 0, 0⟩⟩ "/mnt/pmem/pool" vmmallocMinPool).toOption.map
        (fun result => (result.1.descriptors, result.2)) =
      some ([(3, "/mnt/pmem/pool")], none) := by
    decide +kernel
  refine ⟨?_, ?_⟩
  · unfold AllOrNothing
    rw [faulted]
    exact id
  · unfold AllOrNothing
    split
    · exact id
    · next after same =>
        rw [same] at left
        intro clean
        simp only [Except.toOption, Option.map_some, Option.some.injEq, Prod.mk.injEq, and_true]
          at left
        rw [left] at clean
        cases clean.2
    · next after addr same =>
        rw [same] at left
        simp [Except.toOption] at left

end

/-! ## Initialisation -/

/-- What `libvmmalloc_init` finds. -/
structure Environment where
  /-- Whether `os_thread_atfork` succeeds. -/
  atfork : Bool
  /-- `VMMALLOC_POOL_DIR`. -/
  poolDir : Option String
  /-- `VMMALLOC_POOL_SIZE`, as `atoll` reads it. -/
  poolSize : Option Int
  /-- `VMMALLOC_FORK`, as `atoi` reads it. -/
  fork : Option Int

/-- How initialisation can end the process. -/
inductive Stop
  | aborted (message : String)
  | faulted (address : Nat)
  deriving DecidableEq

/-- `libvmmalloc_init`: the process with its pool and `Forkopt`. -/
def libvmmallocInit (pagesize : Nat) (calls : Calls) (env : Environment) (sp : Space) :
    Except Stop (Space × Nat × Int) :=
  let abort (message : String) : Except Stop (Space × Nat × Int) := .error (.aborted message)
  if env.atfork = false then abort "Error (libvmmalloc): os_thread_atfork"
  else
    match env.poolDir with
    | none => abort "Error (libvmmalloc): environment variable VMMALLOC_POOL_DIR not specified"
    | some dir =>
        match env.poolSize with
        | none => abort "Error (libvmmalloc): environment variable VMMALLOC_POOL_SIZE not specified"
        | some v =>
            if v < 0 then abort "Error (libvmmalloc): negative VMMALLOC_POOL_SIZE"
            else
              let size := v.toNat
              let minimum := vmmallocMinPool
              if size < minimum then
                abort s!"Error (libvmmalloc): VMMALLOC_POOL_SIZE value is less than minimum ({size} < {minimum})"
              else
                let forkopt := env.fork.getD 1
                if forkopt < 0 ∨ 3 < forkopt then
                  abort s!"Error (libvmmalloc): incorrect VMMALLOC_FORK value ({forkopt})"
                else
                  match libvmmallocCreate pagesize calls sp dir size with
                  | .error address => .error (.faulted address)
                  | .ok (_, none) => abort "!Error (libvmmalloc): vmem pool creation failed"
                  | .ok (after, some vmp) => .ok (after, vmp, forkopt)

/-- The settings that `libvmmalloc_init` accepts. -/
structure Environment.Accepted (env : Environment) (dir : String) (size : Nat) : Prop where
  atfork : env.atfork = true
  poolDir : env.poolDir = some dir
  poolSize : env.poolSize = some (size : Int)
  large : vmmallocMinPool ≤ size
  fork : 0 ≤ env.fork.getD 1 ∧ env.fork.getD 1 ≤ 3

/-- With settings it accepts, initialisation is what `libvmmalloc_create` makes of it. -/
theorem libvmmallocInit_of_accepted {pagesize : Nat} {calls : Calls} {env : Environment}
    {sp : Space}
    {dir : String} {size : Nat} (accepted : env.Accepted dir size) :
    libvmmallocInit pagesize calls env sp =
      match libvmmallocCreate pagesize calls sp dir size with
      | .error address => .error (.faulted address)
      | .ok (_, none) => .error (.aborted "!Error (libvmmalloc): vmem pool creation failed")
      | .ok (after, some vmp) => .ok (after, vmp, env.fork.getD 1) := by
  obtain ⟨lower, upper⟩ := accepted.fork
  have large := accepted.large
  unfold libvmmallocInit
  simp only [accepted.atfork, accepted.poolDir, accepted.poolSize, Bool.true_eq_false, if_false,
    Int.toNat_natCast]
  rw [if_neg (by omega), if_neg (by omega), if_neg (by omega)]

/-- Initialisation is killed by a fault exactly if its settings are accepted and
`mmap` fails. -/
theorem libvmmallocInit_faulted_iff {pagesize : Nat} {calls : Calls} {env : Environment}
    {sp : Space}
    {dir : String} {size : Nat} (accepted : env.Accepted dir size) (valid : sp.Valid)
    (positive : 0 < pagesize) (word : pagesize ≤ Word.modulus) (fits : size < Word.modulus)
    (lawful : calls.Lawful sp (Word.ceil size pagesize)) :
    (∃ address, libvmmallocInit pagesize calls env sp = .error (.faulted address)) ↔
      calls.mmapResult = none := by
  rw [libvmmallocInit_of_accepted accepted]
  cases mapped : calls.mmapResult with
  | none =>
      rw [libvmmallocCreate_mmap_failed valid accepted.large mapped]
      simp
  | some addr =>
      obtain ⟨descriptor, opened⟩ := Option.isSome_iff_exists.mp
        (lawful.opened (by rw [mapped]; rfl))
      rw [libvmmallocCreate_mapped valid accepted.large positive word fits lawful opened mapped]
      cases calls.poolCreate <;> simp

end Vmmalloc
end Vmem
