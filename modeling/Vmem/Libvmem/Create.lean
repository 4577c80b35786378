import Vmem.Vmmalloc.Create

/-!
# Creating and deleting a pool of libvmem

`vmem_createU` maps either a temporary file of the requested size or a whole device,
writes the header and hands the rest to jemalloc; `vmem_delete` unmaps what the header
says.  The outcomes of the system calls and of `je_vmem_pool_create` are given.
Descriptors are closed on every path and are left out, and so are page permissions.
-/

namespace Vmem
namespace Libvmem

open Vmmalloc (Region Space VmemStruct writeHeader initialHeader poolHdrSize mapFailed vmemHdrSig)

/-- `VMEM_MIN_POOL`. -/
def vmemMinPool : Nat := 1024 * 1024 * 14

/-- `Header_size`: `sizeof (VMEM)` rounded up to pages. -/
def headerSize : Nat := 8192

/-- `enum file_type`. -/
inductive FileType
  | otherError
  | notExists
  | normal
  | devdax
  deriving DecidableEq

/-- What the system says about a path. -/
structure PathInfo where
  /-- `os_access`; `none` is an error other than `ENOENT`. -/
  access : Option Bool
  /-- `S_ISCHR` of `os_stat`; `none` if `os_stat` fails. -/
  charDevice : Option Bool
  /-- The last component of the device's subsystem; `none` if `realpath` fails. -/
  subsystem : Option String
  /-- `st_size`. -/
  fileSize : Nat
  /-- What `strtoll` reads from the device's size; `none` if it cannot be read. -/
  deviceSize : Option Int

/-- `util_stat_get_type`. -/
def utilStatGetType (info : PathInfo) (charDevice : Bool) : FileType :=
  if charDevice = false then .normal
  else
    match info.subsystem with
    | none => .otherError
    | some basename => if basename ≠ "dax" then .otherError else .devdax

/-- `util_file_get_type`. -/
def utilFileGetType (info : PathInfo) : FileType :=
  match info.access with
  | none => .otherError
  | some false => .notExists
  | some true =>
      match info.charDevice with
      | none => .otherError
      | some charDevice => utilStatGetType info charDevice

/-- `device_dax_size`. -/
def deviceDaxSize (info : PathInfo) : Int :=
  match info.charDevice with
  | none => -1
  | some _ => info.deviceSize.getD (-1)

/-- `util_file_get_size`. -/
def utilFileGetSize (info : PathInfo) : Int :=
  match utilFileGetType info with
  | .otherError => -1
  | .notExists => -1
  | .devdax => deviceDaxSize info
  | .normal =>
      match info.charDevice with
      | none => -1
      | some _ => info.fileSize

/-- The outcomes of the calls. -/
structure Calls where
  /-- Whether `os_open` succeeds. -/
  openWhole : Bool
  /-- Whether `util_tmpfile` succeeds. -/
  tmpfile : Bool
  /-- Whether `os_posix_fallocate` succeeds. -/
  fallocate : Bool
  /-- Whether `util_map_hint` finds a range. -/
  mapHint : Bool
  /-- The address, or `MAP_FAILED`. -/
  mmapResult : Option Nat
  /-- Whether `je_vmem_pool_create` returns a pool. -/
  poolCreate : Bool

/-- `util_map`. -/
def utilMap (calls : Calls) (sp : Space) (file : String) (len : Nat) : Space × Option Nat :=
  if calls.mapHint = false then (sp, none)
  else
    match calls.mmapResult with
    | none => (sp, none)
    | some base => ({ sp with regions := ⟨base, len, file, 0⟩ :: sp.regions }, some base)

/-- `util_file_map_whole`. -/
def utilFileMapWhole (calls : Calls) (info : PathInfo) (sp : Space) (path : String) :
    Space × Option Nat :=
  if calls.openWhole = false then (sp, none)
  else
    let size := utilFileGetSize info
    if size < 0 then (sp, none) else utilMap calls sp path size.toNat

/-- `util_map_tmpfile`. -/
def utilMapTmpfile (calls : Calls) (sp : Space) (dir : String) (size : Nat) : Space × Option Nat :=
  -- the size is negative as `os_off_t`
  if 2 ^ 63 ≤ size then (sp, none)
  else if calls.tmpfile = false then (sp, none)
  else if calls.fallocate = false then (sp, none)
  else utilMap calls sp (dir ++ "/vmem.XXXXXX") size

/-- The arguments of `je_vmem_pool_create`. -/
structure PoolCreateArgs where
  addr : Nat
  size : Nat
  zeroed : Bool
  deriving DecidableEq

/-- What `vmem_createU` leaves: the process, the pool it returns and what it asked of
jemalloc. -/
structure Created where
  space : Space
  vmp : Option Nat
  handed : Option PoolCreateArgs

/-- `vmem_createU`.  An error is a fault, with its address. -/
def vmemCreateU (mmapAlign : Nat) (calls : Calls) (info : PathInfo) (sp : Space) (dir : String)
    (size : Nat) : Except Nat Created :=
  if size < vmemMinPool then .ok ⟨sp, none, none⟩
  else
    let type := utilFileGetType info
    if type = .otherError then .ok ⟨sp, none, none⟩
    else
      -- silently enforce multiple of mapping alignment
      let size := Word.ceil size mmapAlign
      match (if type = .devdax then utilFileMapWhole calls info sp dir
        else utilMapTmpfile calls sp dir size) with
      | (sp, none) => .ok ⟨sp, none, none⟩
      | (sp, some addr) => do
          let sp ← writeHeader sp addr size
          let handed : PoolCreateArgs :=
            ⟨Word.add addr headerSize, Word.sub size headerSize, decide (type ≠ .devdax)⟩
          if calls.poolCreate then .ok ⟨sp, some addr, some handed⟩
          else
            let vmpAddr ← sp.load addr poolHdrSize 8 VmemStruct.addr
            let vmpSize ← sp.load addr (poolHdrSize + 8) 8 VmemStruct.size
            .ok ⟨sp.utilUnmap vmpAddr vmpSize, none, some handed⟩

/-- `vmem_delete`, given whether `je_vmem_pool_delete` succeeds; the pair is what it passes to
`util_unmap`. -/
def vmemDelete (sp : Space) (vmp : Nat) (poolDelete : Bool) :
    Except Nat (Space × Option (Nat × Nat)) :=
  if poolDelete = false then .ok (sp, none)
  else do
    let vmpAddr ← sp.load vmp poolHdrSize 8 VmemStruct.addr
    let callerMapped ← sp.load vmp (poolHdrSize + 16) 4 VmemStruct.callerMapped
    let vmpSize ← sp.load vmp (poolHdrSize + 8) 8 VmemStruct.size
    if callerMapped = 0 then .ok (sp.utilUnmap vmpAddr vmpSize, some (vmpAddr, vmpSize))
    else .ok (sp, none)

/-! ## The pool and its mapping -/

/-- The length that is asked of `mmap`. -/
def mapLength (mmapAlign : Nat) (info : PathInfo) (size : Nat) : Nat :=
  if utilFileGetType info = .devdax then (utilFileGetSize info).toNat else Word.ceil size mmapAlign

/-- What `mmap` promises: the length is not zero, and the range it returns is free and does
not reach `MAP_FAILED`. -/
structure Calls.Lawful (calls : Calls) (sp : Space) (len : Nat) : Prop where
  positive : calls.mmapResult.isSome → 0 < len
  within : ∀ addr, calls.mmapResult = some addr → addr + len ≤ mapFailed
  apart : ∀ addr, calls.mmapResult = some addr → ∀ r ∈ sp.regions, r.Apart addr len

/-- The range of the pool is the range that was mapped, for jemalloc and for `vmem_delete`, and
it is not smaller than the request. -/
structure Inside (before : Space) (size : Nat) (created : Created) (vmp : Nat) (region : Region) :
    Prop where
  mapped : created.space.regions = region :: before.regions
  starts : region.addr = vmp
  length : (created.space.structs vmp).size = region.len
  rounded : size ≤ (created.space.structs vmp).size
  /-- Behind the header, jemalloc gets the rest of the mapping. -/
  handed : ∃ zeroed, created.handed =
    some ⟨vmp + headerSize, region.len - headerSize, zeroed⟩ ∧ headerSize ≤ region.len
  /-- `vmem_delete` unmaps the mapping and nothing else. -/
  deleted : ∃ after,
    vmemDelete created.space vmp true = .ok (after, some (region.addr, region.len)) ∧
    after.regions = before.regions

section

variable {calls : Calls} {info : PathInfo} {sp : Space} {dir : String} {size mmapAlign vmp : Nat}
  {created : Created}

/-- A sequence that succeeds succeeds in its first part and in the rest. -/
theorem bind_eq_ok {α β : Type} {first : Except Nat α} {rest : α → Except Nat β} {result : β}
    (succeeds : (first >>= rest) = .ok result) :
    ∃ middle, first = .ok middle ∧ rest middle = .ok result := by
  cases first with
  | error address => cases succeeds
  | ok middle => exact ⟨middle, rfl, succeeds⟩

/-- Once the header is written, it is the header. -/
theorem writeHeader_ok {sp after : Space} (written : writeHeader sp vmp size = .ok after) :
    after = sp.update vmp fun _ => initialHeader vmp size := by
  have stored : ∀ {before next : Space} {offset len : Nat} {change : VmemStruct → VmemStruct},
      before.store vmp offset len change = .ok next → next = before.update vmp change := by
    intro before next offset len change result
    unfold Space.store at result
    dsimp only at result
    split at result
    · injection result with same
      exact same.symm
    · cases result
  unfold writeHeader at written
  obtain ⟨cleared, first, written⟩ := bind_eq_ok written
  obtain ⟨signed, second, written⟩ := bind_eq_ok written
  obtain ⟨placed, third, written⟩ := bind_eq_ok written
  obtain ⟨sized, fourth, written⟩ := bind_eq_ok written
  rw [stored written, stored fourth, stored third, stored second, stored first]
  unfold Space.update
  congr 1
  funext address
  by_cases here : address = vmp
  · simp [here, initialHeader]
  · simp [here]

theorem utilMap_some {file : String} {len : Nat} {after : Space}
    (mapped : utilMap calls sp file len = (after, some vmp)) :
    calls.mmapResult = some vmp ∧
      after = { sp with regions := ⟨vmp, len, file, 0⟩ :: sp.regions } := by
  unfold utilMap at mapped
  split at mapped
  · cases mapped
  · split at mapped
    · cases mapped
    · next base result =>
        injection mapped with space address
        injection address with address
        subst address
        exact ⟨result, space.symm⟩

/-- Either way of mapping maps `mapLength` bytes. -/
theorem mapping_some {after : Space}
    (mapped : (if utilFileGetType info = .devdax then utilFileMapWhole calls info sp dir
      else utilMapTmpfile calls sp dir (Word.ceil size mmapAlign)) = (after, some vmp)) :
    calls.mmapResult = some vmp ∧ ∃ file, after =
      { sp with regions := ⟨vmp, mapLength mmapAlign info size, file, 0⟩ :: sp.regions } := by
  unfold mapLength
  split at mapped
  · next device =>
      rw [if_pos device]
      unfold utilFileMapWhole at mapped
      dsimp only at mapped
      split at mapped
      · cases mapped
      split at mapped
      · cases mapped
      obtain ⟨result, space⟩ := utilMap_some mapped
      exact ⟨result, dir, space⟩
  · next notDevice =>
      rw [if_neg notDevice]
      unfold utilMapTmpfile at mapped
      split at mapped
      · cases mapped
      split at mapped
      · cases mapped
      split at mapped
      · cases mapped
      obtain ⟨result, space⟩ := utilMap_some mapped
      exact ⟨result, _, space⟩

/-- What is known when `vmem_createU` returns a pool. -/
theorem vmemCreateU_returns (returned : vmemCreateU mmapAlign calls info sp dir size = .ok created)
    (pool : created.vmp = some vmp) :
    vmemMinPool ≤ size ∧ calls.mmapResult = some vmp ∧
      (∃ file, created.space.regions =
        ⟨vmp, mapLength mmapAlign info size, file, 0⟩ :: sp.regions) ∧
      created.space.structs vmp = initialHeader vmp (Word.ceil size mmapAlign) ∧
      ∃ zeroed, created.handed = some ⟨Word.add vmp headerSize,
        Word.sub (Word.ceil size mmapAlign) headerSize, zeroed⟩ := by
  unfold vmemCreateU at returned
  split at returned
  · injection returned with same
    subst same
    cases pool
  next large =>
  dsimp only at returned
  split at returned
  · injection returned with same
    subst same
    cases pool
  split at returned
  · injection returned with same
    subst same
    cases pool
  next after addr mapping =>
  obtain ⟨header, written, returned⟩ := bind_eq_ok returned
  split at returned
  · injection returned with same
    subst same
    injection pool with same
    subst same
    obtain ⟨result, file, space⟩ := mapping_some mapping
    have final := writeHeader_ok written
    refine ⟨Nat.le_of_not_lt large, result, ⟨file, ?_⟩, ?_, ⟨_, rfl⟩⟩
    · rw [final, space]
      rfl
    · rw [final]
      unfold Space.update
      dsimp only
      rw [if_pos rfl]
  · obtain ⟨vmpAddr, _, returned⟩ := bind_eq_ok returned
    obtain ⟨vmpSize, _, returned⟩ := bind_eq_ok returned
    injection returned with same
    subst same
    cases pool

/-- `vmem_delete` undoes a mapping that is as long as the header says. -/
theorem vmemDelete_regions {before after : Space} {region : Region} (valid : before.Valid)
    (regions : after.regions = region :: before.regions) (large : vmemMinPool ≤ region.len)
    (within : region.addr + region.len ≤ mapFailed)
    (apart : ∀ r ∈ before.regions, r.Apart region.addr region.len)
    (header : after.structs region.addr = initialHeader region.addr region.len) :
    ∃ last, vmemDelete after region.addr true = .ok (last, some (region.addr, region.len)) ∧
      last.regions = before.regions := by
  have member : region ∈ after.regions := by
    rw [regions]
    exact List.mem_cons_self
  have fits : ∀ offset len : Nat, offset + len ≤ poolHdrSize + 20 → offset + len ≤ region.len := by
    intro offset len small
    have : poolHdrSize + 20 ≤ vmemMinPool := by decide
    omega
  refine ⟨after.utilUnmap region.addr region.len, ?_, ?_⟩
  · unfold vmemDelete
    rw [if_neg (by decide)]
    rw [Space.load_of_mapped region region.addr member rfl (fits poolHdrSize 8 (by decide)) within]
    dsimp only [bind, Except.bind]
    rw [Space.load_of_mapped region region.addr member rfl (fits (poolHdrSize + 16) 4 (by decide))
      within]
    dsimp only
    rw [Space.load_of_mapped region region.addr member rfl (fits (poolHdrSize + 8) 8 (by decide))
      within]
    dsimp only
    rw [header]
    rfl
  · unfold Space.utilUnmap
    rw [regions]
    exact Space.utilUnmap_regions valid apart

/-- A pool that is returned lies in its mapping exactly if it was not made on a device of
another length. -/
theorem create_inside_iff (valid : sp.Valid) (positive : 0 < mmapAlign)
    (word : mmapAlign ≤ Word.modulus) (fits : size < Word.modulus)
    (lawful : calls.Lawful sp (mapLength mmapAlign info size))
    (returned : vmemCreateU mmapAlign calls info sp dir size = .ok created)
    (pool : created.vmp = some vmp) :
    (∃ region, Inside sp size created vmp region) ↔
      utilFileGetType info ≠ .devdax ∨
        utilFileGetSize info = (Word.ceil size mmapAlign : Nat) := by
  obtain ⟨large, result, ⟨file, regions⟩, header, zeroed, handed⟩ :=
    vmemCreateU_returns returned pool
  have nonzero : 0 < mapLength mmapAlign info size := lawful.positive (by rw [result]; rfl)
  constructor
  · rintro ⟨region, inside⟩
    by_cases device : utilFileGetType info = .devdax
    · right
      have same : region = ⟨vmp, mapLength mmapAlign info size, file, 0⟩ := by
        have both := inside.mapped.symm.trans regions
        injection both
      have length := inside.length
      rw [header, same] at length
      unfold mapLength at length nonzero
      rw [if_pos device] at length nonzero
      simp only [initialHeader] at length
      omega
    · exact Or.inl device
  · intro condition
    have length : mapLength mmapAlign info size = Word.ceil size mmapAlign := by
      unfold mapLength
      split
      · next device =>
          rw [condition.resolve_left (fun other => other device)]
          exact Int.toNat_natCast _
      · rfl
    have enough : size ≤ Word.ceil size mmapAlign := by
      obtain zero | le := Vmmalloc.ceil_eq_zero_or_le positive word fits
      · omega
      · exact le
    have within := lawful.within vmp result
    rw [length] at within regions
    have small : headerSize ≤ vmemMinPool := by decide
    have top : mapFailed < Word.modulus := by decide +kernel
    refine ⟨⟨vmp, Word.ceil size mmapAlign, file, 0⟩, ?_⟩
    exact {
      mapped := regions
      starts := rfl
      length := by rw [header]; rfl
      rounded := by rw [header]; exact enough
      handed := by
        refine ⟨zeroed, ?_, by dsimp only; omega⟩
        rw [handed, Word.add_eq (by omega), Word.sub_eq (by omega) (Word.ceil_lt _ _)]
      deleted := by
        apply vmemDelete_regions valid regions (by dsimp only; omega) within _ header
        intro r member
        have apart := lawful.apart vmp result r member
        rw [length] at apart
        exact apart }

end

/-- A device of 16 MiB. -/
def deviceInfo : PathInfo := ⟨some true, some true, some "dax", 0, some (16 * 1024 * 1024)⟩

/-- Every call succeeds. -/
def allSucceed : Calls := ⟨true, true, true, true, some 0x7f0000000000, true⟩

/-- A process without mappings. -/
def emptySpace : Space := ⟨[], [], 0, fun _ => ⟨[], 0, 0, 0⟩⟩

theorem allSucceed_lawful (len : Nat) (positive : 0 < len)
    (within : 0x7f0000000000 + len ≤ mapFailed) :
    allSucceed.Lawful emptySpace len where
  positive := fun _ => positive
  within := by
    intro addr same
    injection same with same
    omega
  apart := by rintro addr _ r ⟨⟩

/-- A pool on the device, of any size. -/
theorem vmemCreateU_device (size : Nat) (large : vmemMinPool ≤ size) :
    ∃ created, vmemCreateU 4096 allSucceed deviceInfo emptySpace "/dev/dax0.0" size = .ok created ∧
      created.vmp = some 0x7f0000000000 := by
  unfold vmemCreateU
  rw [if_neg (by omega)]
  have isDevice : utilFileGetType deviceInfo = .devdax := by decide
  have wholeSize : utilFileGetSize deviceInfo = 16 * 1024 * 1024 := by decide
  have mapping : utilFileMapWhole allSucceed deviceInfo emptySpace "/dev/dax0.0" =
      ({ emptySpace with
        regions := [⟨0x7f0000000000, 16 * 1024 * 1024, "/dev/dax0.0", 0⟩] },
        some 0x7f0000000000) := by
    unfold utilFileMapWhole
    rw [wholeSize]
    rfl
  dsimp only
  rw [isDevice, if_neg (by decide), if_pos rfl, mapping]
  dsimp only
  rw [Vmmalloc.writeHeader_of_mapped ⟨0x7f0000000000, 16 * 1024 * 1024, "/dev/dax0.0", 0⟩
    0x7f0000000000 List.mem_cons_self rfl (by decide +kernel) (by decide +kernel)]
  exact ⟨_, rfl, rfl⟩

theorem create_inside_device :
    ∃ created, vmemCreateU 4096 allSucceed deviceInfo emptySpace "/dev/dax0.0" (16 * 1024 * 1024) =
      .ok created ∧ ∃ vmp region, Inside emptySpace (16 * 1024 * 1024) created vmp region := by
  obtain ⟨created, returned, pool⟩ := vmemCreateU_device (16 * 1024 * 1024) (by decide)
  refine ⟨created, returned, 0x7f0000000000, ?_⟩
  have lawful : allSucceed.Lawful emptySpace (mapLength 4096 deviceInfo (16 * 1024 * 1024)) :=
    allSucceed_lawful _ (by decide +kernel) (by decide +kernel)
  exact (create_inside_iff (by rintro r ⟨⟩) (by decide) (by decide +kernel)
    (by decide +kernel) lawful
    returned pool).mpr (Or.inr (by decide +kernel))

/-- A pool of 14 MiB on a device of 16 MiB: its range is not the range that was mapped, and
`vmem_delete` leaves the last 2 MiB mapped. -/
theorem create_not_inside :
    ∃ created, vmemCreateU 4096 allSucceed deviceInfo emptySpace "/dev/dax0.0" vmemMinPool =
      .ok created ∧ created.vmp = some 0x7f0000000000 ∧
      ¬∃ region, Inside emptySpace vmemMinPool created 0x7f0000000000 region := by
  obtain ⟨created, returned, pool⟩ := vmemCreateU_device vmemMinPool (Nat.le_refl _)
  refine ⟨created, returned, pool, ?_⟩
  rintro ⟨region, inside⟩
  obtain ⟨_, _, ⟨file, regions⟩, header, _⟩ := vmemCreateU_returns returned pool
  have same := inside.mapped.symm.trans regions
  injection same with same
  have length := inside.length
  rw [header, same] at length
  have differs : Word.ceil vmemMinPool 4096 ≠ mapLength 4096 deviceInfo vmemMinPool := by
    decide +kernel
  exact differs length

end Libvmem
end Vmem
