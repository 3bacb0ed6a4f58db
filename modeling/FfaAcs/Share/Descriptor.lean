import FfaAcs.Machine.Fields
import FfaAcs.Machine.WordArithmetic

/-!
# Memory transaction descriptors

The structures of a memory sharing message as the three builds lay them out. Offsets are counted
from the start of the TX buffer, where the descriptor begins. The version 1.0 header has two
reserved fields that fill it; the later ones have a byte of padding after the attributes, which
are one byte wide, and an offset and a size for the array of receivers.
-/

namespace FfaAcs.Share

open Machine

/-- The versions of the descriptor layout. -/
inductive FfaVersion
  | v1_0
  | v1_1
  | v1_2
deriving DecidableEq, Repr

/-! ## Attributes -/

/-- `enum ffa_data_access` -/
inductive DataAccess
  | notSpecified
  | ro
  | rw
  | reserved
deriving DecidableEq, Repr

/-- `enum ffa_instruction_access` -/
inductive InstructionAccess
  | notSpecified
  | nx
  | x
  | reserved
deriving DecidableEq, Repr

/-- `enum ffa_memory_type` -/
inductive MemoryType
  | notSpecified
  | device
  | normal
deriving DecidableEq, Repr

/-- `enum ffa_memory_cacheability`. The values for device memory, nGnRnE to GRE, are the same four. -/
inductive MemoryCacheability
  | reserved
  | nonCacheable
  | reserved1
  | writeBack
deriving DecidableEq, Repr

/-- `enum ffa_memory_shareability` -/
inductive MemoryShareability
  | nonShareable
  | reserved
  | outerShareable
  | innerShareable
deriving DecidableEq, Repr

/-- The number of an enumerator. -/
def DataAccess.code : DataAccess → ℕ
  | notSpecified => 0
  | ro => 1
  | rw => 2
  | reserved => 3

@[inherit_doc DataAccess.code]
def InstructionAccess.code : InstructionAccess → ℕ
  | notSpecified => 0
  | nx => 1
  | x => 2
  | reserved => 3

@[inherit_doc DataAccess.code]
def MemoryType.code : MemoryType → ℕ
  | notSpecified => 0
  | device => 1
  | normal => 2

@[inherit_doc DataAccess.code]
def MemoryCacheability.code : MemoryCacheability → ℕ
  | reserved => 0
  | nonCacheable => 1
  | reserved1 => 2
  | writeBack => 3

@[inherit_doc DataAccess.code]
def MemoryShareability.code : MemoryShareability → ℕ
  | nonShareable => 0
  | reserved => 1
  | outerShareable => 2
  | innerShareable => 3

/-- The functions that `ATTR_FUNCTION_SET` defines. The mask is a 32-bit constant. -/
def attrFunctionSet (offset mask attr perm : ℕ) : ℕ :=
  ((attr &&& (2 ^ 32 - 1 - mask)) ||| ((perm <<< offset) &&& mask)) % 2 ^ 8

/-- The functions that `ATTR_FUNCTION_GET` defines. -/
def attrFunctionGet (offset mask attr : ℕ) : ℕ := (attr &&& mask) >>> offset

/-- The masks are two bits wide, at the offset of the attribute. -/
def attrMask (offset : ℕ) : ℕ := 3 <<< offset

def ffaDataAccessOffset : ℕ := 0
def ffaInstructionAccessOffset : ℕ := 2
def ffaMemoryTypeOffset : ℕ := 4
def ffaMemoryCacheabilityOffset : ℕ := 2
def ffaMemoryShareabilityOffset : ℕ := 0

def ffaSetDataAccessAttr (attr : ℕ) (perm : DataAccess) : ℕ :=
  attrFunctionSet ffaDataAccessOffset (attrMask ffaDataAccessOffset) attr perm.code

def ffaGetDataAccessAttr : ℕ → ℕ :=
  attrFunctionGet ffaDataAccessOffset (attrMask ffaDataAccessOffset)

def ffaSetInstructionAccessAttr (attr : ℕ) (perm : InstructionAccess) : ℕ :=
  attrFunctionSet ffaInstructionAccessOffset (attrMask ffaInstructionAccessOffset) attr perm.code

def ffaGetInstructionAccessAttr : ℕ → ℕ :=
  attrFunctionGet ffaInstructionAccessOffset (attrMask ffaInstructionAccessOffset)

def ffaSetMemoryTypeAttr (attr : ℕ) (perm : MemoryType) : ℕ :=
  attrFunctionSet ffaMemoryTypeOffset (attrMask ffaMemoryTypeOffset) attr perm.code

def ffaGetMemoryTypeAttr : ℕ → ℕ :=
  attrFunctionGet ffaMemoryTypeOffset (attrMask ffaMemoryTypeOffset)

def ffaSetMemoryCacheabilityAttr (attr : ℕ) (perm : MemoryCacheability) : ℕ :=
  attrFunctionSet ffaMemoryCacheabilityOffset (attrMask ffaMemoryCacheabilityOffset) attr perm.code

def ffaGetMemoryCacheabilityAttr : ℕ → ℕ :=
  attrFunctionGet ffaMemoryCacheabilityOffset (attrMask ffaMemoryCacheabilityOffset)

def ffaSetMemoryShareabilityAttr (attr : ℕ) (perm : MemoryShareability) : ℕ :=
  attrFunctionSet ffaMemoryShareabilityOffset (attrMask ffaMemoryShareabilityOffset) attr perm.code

def ffaGetMemoryShareabilityAttr : ℕ → ℕ :=
  attrFunctionGet ffaMemoryShareabilityOffset (attrMask ffaMemoryShareabilityOffset)

/-- The permissions of a request, as both functions assemble them. -/
def permissionsOf (data : DataAccess) (instruction : InstructionAccess) : ℕ :=
  ffaSetInstructionAccessAttr (ffaSetDataAccessAttr 0 data) instruction

/-- The attributes of a request, as both functions assemble them. -/
def attributesOf (type : MemoryType) (cacheability : MemoryCacheability)
    (shareability : MemoryShareability) : ℕ :=
  ffaSetMemoryShareabilityAttr (ffaSetMemoryCacheabilityAttr (ffaSetMemoryTypeAttr 0 type)
    cacheability) shareability

/-- The permissions fit in their byte, and the getters give back what was set. -/
theorem permissionsOf_spec (data : DataAccess) (instruction : InstructionAccess) :
    permissionsOf data instruction < 256 ∧
      ffaGetDataAccessAttr (permissionsOf data instruction) = data.code ∧
      ffaGetInstructionAccessAttr (permissionsOf data instruction) = instruction.code := by
  cases data <;> cases instruction <;> decide

/-- The attributes fit in their byte, and the getters give back what was set. -/
theorem attributesOf_spec (type : MemoryType) (cacheability : MemoryCacheability)
    (shareability : MemoryShareability) :
    attributesOf type cacheability shareability < 256 ∧
      ffaGetMemoryTypeAttr (attributesOf type cacheability shareability) = type.code ∧
      ffaGetMemoryCacheabilityAttr (attributesOf type cacheability shareability) =
        cacheability.code ∧
      ffaGetMemoryShareabilityAttr (attributesOf type cacheability shareability) =
        shareability.code := by
  cases type <;> cases cacheability <;> cases shareability <;> decide

/-! ## Layouts -/

/-- `sizeof(struct ffa_memory_region)` -/
def sizeofMemoryRegion : FfaVersion → ℕ
  | .v1_0 => 32
  | .v1_1 | .v1_2 => 48

/-- `sizeof(struct ffa_memory_access)` -/
def sizeofMemoryAccess : FfaVersion → ℕ
  | .v1_0 | .v1_1 => 16
  | .v1_2 => 32

/-- `sizeof(struct ffa_composite_memory_region)` -/
def sizeofComposite : ℕ := 16

/-- `sizeof(struct ffa_memory_region_constituent)` -/
def sizeofConstituent : ℕ := 16

/-- `EP_MEM_ACCESS_DESC_ARR_OFFSET` -/
def epMemAccessDescArrOffset : ℕ := 0x30

/-! The fields of `struct ffa_memory_region`. The fields `reserved_0` and `reserved_1` are those of
version 1.0, the other reserved words, the size and the offset those of the later ones. -/

namespace MemoryRegion

def sender : Field := ⟨0, 2⟩
def attributes : Field := ⟨2, 1⟩
def reserved0 : Field := ⟨3, 1⟩
def flags : Field := ⟨4, 4⟩
def handle : Field := ⟨8, 8⟩
def tag : Field := ⟨16, 8⟩
def reserved1 : Field := ⟨24, 4⟩
def memoryAccessDescSize : Field := ⟨24, 4⟩
def receiverCount : Field := ⟨28, 4⟩
def receiversOffset : Field := ⟨32, 4⟩
def reserved (i : ℕ) : Field := ⟨36 + 4 * i, 4⟩

/-- Where the descriptor of receiver `i` starts. -/
def receivers (v : FfaVersion) (i : ℕ) : ℕ := sizeofMemoryRegion v + i * sizeofMemoryAccess v

end MemoryRegion

/-! The fields of `struct ffa_memory_access` at `base`; only version 1.2 has the words `impdef`. -/

namespace MemoryAccess

variable (base : ℕ)

def receiver : Field := ⟨base, 2⟩
def permissions : Field := ⟨base + 2, 1⟩
def flags : Field := ⟨base + 3, 1⟩
def compositeMemoryRegionOffset : Field := ⟨base + 4, 4⟩
def impdef (i : ℕ) : Field := ⟨base + 8 + 8 * i, 8⟩
def reserved0 : FfaVersion → Field
  | .v1_0 | .v1_1 => ⟨base + 8, 8⟩
  | .v1_2 => ⟨base + 24, 8⟩

end MemoryAccess

/-! The fields of `struct ffa_composite_memory_region` at `base`. -/

namespace Composite

variable (base : ℕ)

def pageCount : Field := ⟨base, 4⟩
def constituentCount : Field := ⟨base + 4, 4⟩
def reserved0 : Field := ⟨base + 8, 8⟩

/-- Where constituent `i` starts. -/
def constituents (i : ℕ) : ℕ := base + sizeofComposite + i * sizeofConstituent

end Composite

/-! The fields of `struct ffa_memory_region_constituent` at `base`. -/

namespace Constituents

variable (base : ℕ)

def address : Field := ⟨base, 8⟩
def pageCount : Field := ⟨base + 8, 4⟩
def reserved : Field := ⟨base + 12, 4⟩

end Constituents

/-- `ffa_memory_region_get_composite`, or `none` for NULL. -/
def ffaMemoryRegionGetComposite (v : FfaVersion) (m : ByteMemory) (receiverIndex : ℕ) : Option ℕ :=
  let offset :=
    (MemoryAccess.compositeMemoryRegionOffset (MemoryRegion.receivers v receiverIndex)).get m
  if offset = 0 then none else some offset

/-! ## Requests -/

/-- `struct ffa_memory_access_impdef` -/
structure Impdef where
  val0 : UInt64
  val1 : UInt64
deriving DecidableEq

/-- What is read of an entry of the array `receivers` of a request. -/
structure ReceiverInit where
  receiver : UInt16
  flags : UInt8
  impdef : Impdef
deriving DecidableEq

/-- `FFA_MAX_MULTI_ENDPOINT_SUPPORT` -/
def ffaMaxMultiEndpointSupport : ℕ := 2

/-- `mem_region_init_t` without the buffer and the two lengths that are returned in it. A request for
several receivers has no more of them than the array has entries. -/
structure MemRegionInit where
  memoryRegionMaxSize : UInt64
  sender : UInt16
  receiver : UInt16
  tag : UInt64
  flags : UInt32
  impdef : Impdef
  dataAccess : DataAccess
  instructionAccess : InstructionAccess
  type : MemoryType
  cacheability : MemoryCacheability
  shareability : MemoryShareability
  multiShare : Bool
  receiverCount : ℕ
  receivers : Fin ffaMaxMultiEndpointSupport → ReceiverInit
  receiverCount_le : multiShare = true → receiverCount ≤ ffaMaxMultiEndpointSupport

/-- `struct ffa_memory_region_constituent` -/
structure Constituent where
  address : UInt64
  pageCount : UInt32
  reserved : UInt32
deriving DecidableEq

end FfaAcs.Share
