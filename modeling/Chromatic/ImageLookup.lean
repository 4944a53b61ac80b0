import Chromatic.ProcessMaps
import Mathlib.Data.List.Pairwise

/-!
# The image of an address

`findModuleByAddress` on macOS. The load commands of an image give its segments at the addresses
it was linked for; where it is in memory, all of them are moved by the slide.

§1 what dyld knows · §2 findModuleByAddress · §3 images in memory · §4 how far an image reaches ·
§5 what is found · §6 libraries linked at 0.
-/

namespace Chromatic

open Foundation ProcessMaps

namespace ImageLookup

/-! ## §1  What dyld knows -/

structure SegmentCommand where
  vmaddr : Addr
  vmsize : Addr
deriving DecidableEq, Repr

inductive LoadCommand where
  | segment64 (seg : SegmentCommand)
  | other
deriving DecidableEq, Repr

structure MachHeader where
  address : Addr
  magic : BitVec 32
  commands : List LoadCommand
deriving DecidableEq, Repr

def MH_MAGIC_64 : BitVec 32 := 0xfeedfacf

/-- `_dyld_get_image_name` and `_dyld_get_image_header`; both may be null. -/
structure DyldImage where
  name : Option String
  header : Option MachHeader
deriving DecidableEq, Repr

/-! ## §2  findModuleByAddress -/

/-- One turn of the loop over the load commands. -/
def growImage (imageSize : Addr) : LoadCommand → Addr
  | .segment64 seg =>
    if seg.vmaddr + seg.vmsize > imageSize then seg.vmaddr + seg.vmsize else imageSize
  | .other => imageSize

def imageSize (header : MachHeader) : Addr :=
  if header.magic = MH_MAGIC_64 then header.commands.foldl growImage 0 else 0

def moduleInfo (name : Option String) (header : MachHeader) : ModuleInfo :=
  let fullPath := name.getD ""
  { name := String.ofList (basename fullPath.toList)
    base := header.address.toNat
    size := ((imageSize header).setWidth 32).toInt
    path := fullPath
    segments := [] }

/-- The loop over the images, in the order of dyld. -/
def findModuleByAddress (addr : Addr) : List DyldImage → Option ModuleInfo
  | [] => none
  | image :: rest =>
    match image.header with
    | none => findModuleByAddress addr rest
    | some header =>
      if addr ≥ header.address ∧ addr < header.address + imageSize header then
        some (moduleInfo image.name header)
      else findModuleByAddress addr rest

/-! ## §3  Images in memory -/

/-- A loaded image. Its header is at the start of `__TEXT`. -/
structure Image where
  name : String
  slide : Addr
  text : SegmentCommand
  commands : List LoadCommand
  textCommand : .segment64 text ∈ commands
  textNonempty : 0 < text.vmsize.toNat

namespace Image

def header (image : Image) : MachHeader :=
  ⟨image.text.vmaddr + image.slide, MH_MAGIC_64, image.commands⟩

def dyld (image : Image) : DyldImage := ⟨some image.name, some image.header⟩

def info (image : Image) : ModuleInfo := moduleInfo (some image.name) image.header

def segments (image : Image) : List SegmentCommand :=
  image.commands.filterMap fun c =>
    match c with
    | .segment64 seg => some seg
    | .other => none

/-- The address for which `a` was linked, if it is in the image. -/
def linked (image : Image) (a : Addr) : ℕ := (a - image.slide).toNat

/-- The address is in a segment of the image. -/
def Owns (image : Image) (a : Addr) : Prop :=
  ∃ seg ∈ image.segments, seg.vmaddr.toNat ≤ image.linked a ∧
    image.linked a < seg.vmaddr.toNat + seg.vmsize.toNat

/-- The address is between the first and the last segment. -/
def InExtent (image : Image) (a : Addr) : Prop :=
  (∃ seg ∈ image.segments, seg.vmaddr.toNat ≤ image.linked a) ∧
    ∃ seg ∈ image.segments, image.linked a < seg.vmaddr.toNat + seg.vmsize.toNat

end Image

/-- Images in the order of dyld. No two share an address. -/
structure Images where
  list : List Image
  apart : list.Pairwise fun i j => ∀ a, ¬ (i.Owns a ∧ j.Owns a)

/-! ## §4  How far an image reaches -/

namespace Image

/-- The end of the last segment, as linked. -/
def linkedEnd (image : Image) : ℕ :=
  (image.segments.map fun seg => (seg.vmaddr + seg.vmsize).toNat).foldr max 0

/-- The end is counted from the header, though it is the distance from the slide. -/
def Reaches (image : Image) (a : Addr) : Prop :=
  image.header.address.toNat ≤ a.toNat ∧
    a.toNat < (image.header.address.toNat + image.linkedEnd) % 2 ^ 64

instance (image : Image) (a : Addr) : Decidable (image.Reaches a) :=
  inferInstanceAs (Decidable (_ ∧ _))

end Image

theorem growImage_toNat (size : Addr) (c : LoadCommand) :
    (growImage size c).toNat =
      match c with
      | .segment64 seg => max size.toNat (seg.vmaddr + seg.vmsize).toNat
      | .other => size.toNat := by
  cases c with
  | segment64 seg =>
    simp only [growImage, gt_iff_lt, BitVec.lt_def]
    split <;> omega
  | other => rfl

theorem foldl_growImage (commands : List LoadCommand) : ∀ size : Addr,
    (commands.foldl growImage size).toNat =
      max size.toNat (((commands.filterMap fun c =>
        match c with
        | .segment64 seg => some seg
        | .other => none).map fun seg => (seg.vmaddr + seg.vmsize).toNat).foldr max 0) := by
  induction commands with
  | nil => intro size; simp
  | cons c rest ih =>
    intro size
    rw [List.foldl_cons, ih, growImage_toNat]
    cases c with
    | segment64 seg => simp [Nat.max_assoc]
    | other => simp

theorem Image.lt_linkedEnd_iff (image : Image) (x : ℕ) :
    x < image.linkedEnd ↔ ∃ seg ∈ image.segments, x < (seg.vmaddr + seg.vmsize).toNat := by
  rw [Image.linkedEnd]
  induction image.segments with
  | nil => simp
  | cons seg rest ih => simp [-BitVec.toNat_add, ih]

theorem imageSize_header (image : Image) : (imageSize image.header).toNat = image.linkedEnd := by
  rw [imageSize, Image.header, if_pos rfl, foldl_growImage]
  simp [Image.linkedEnd, Image.segments]

theorem reaches_iff (image : Image) (a : Addr) :
    (a ≥ image.header.address ∧ a < image.header.address + imageSize image.header) ↔
      image.Reaches a := by
  rw [ge_iff_le, BitVec.le_def, BitVec.lt_def, BitVec.toNat_add, imageSize_header]
  rfl

/-- The search is for the first image which reaches the address. -/
theorem findModuleByAddress_eq (a : Addr) (list : List Image) :
    findModuleByAddress a (list.map Image.dyld) =
      (list.find? fun image => decide (image.Reaches a)).map Image.info := by
  induction list with
  | nil => rfl
  | cons image rest ih =>
    rw [List.map_cons, findModuleByAddress, List.find?_cons]
    simp only [Image.dyld, reaches_iff]
    by_cases h : image.Reaches a
    · simp [h, Image.info]
    · simp [h, ih]

/-! ## §5  What is found -/

section Found

variable (images : Images) (a : Addr)

/-- An image with the address is found, and none is found which is elsewhere. -/
structure Exact : Prop where
  found : ∀ image ∈ images.list, image.Owns a →
    findModuleByAddress a (images.list.map Image.dyld) = some image.info
  sound : ∀ image ∈ images.list,
    findModuleByAddress a (images.list.map Image.dyld) = some image.info → image.InExtent a

/-- The image of the address is the first which reaches it; where it is in no image, the first
which reaches it has segments on both sides. -/
structure Separated : Prop where
  owner : ∀ pre image post, images.list = pre ++ image :: post → image.Owns a →
    image.Reaches a ∧ ∀ other ∈ pre, ¬ other.Reaches a
  first : ∀ pre image post, images.list = pre ++ image :: post → image.Reaches a →
    (∀ other ∈ pre, ¬ other.Reaches a) → image.InExtent a

variable {images a}

theorem owns_header (image : Image) : image.Owns image.header.address := by
  refine ⟨image.text, List.mem_filterMap.2 ⟨_, image.textCommand, rfl⟩, ?_⟩
  have h : image.linked image.header.address = image.text.vmaddr.toNat := by
    rw [Image.linked, Image.header, BitVec.add_sub_cancel]
  have := image.textNonempty
  omega

theorem info_base (image : Image) : image.info.base = image.header.address.toNat := rfl

/-- The modules of two images differ in their base. -/
theorem info_inj {i j : Image} (hi : i ∈ images.list) (hj : j ∈ images.list)
    (h : i.info = j.info) : i = j := by
  have hbase : i.header.address = j.header.address := by
    apply BitVec.eq_of_toNat_eq
    rw [← info_base, ← info_base, h]
  by_contra hne
  have hsymm : Std.Symm fun i j : Image => ∀ a, ¬ (i.Owns a ∧ j.Owns a) :=
    ⟨fun _ _ h a ⟨hi, hj⟩ => h a ⟨hj, hi⟩⟩
  have hapart := images.apart.forall hi hj hne
  exact hapart _ ⟨owns_header i, hbase ▸ owns_header j⟩

theorem nodup (images : Images) : images.list.Nodup := by
  refine images.apart.imp fun {i j} h => ?_
  rintro rfl
  exact h _ ⟨owns_header i, owns_header i⟩

/-- An image is found if it is the first which reaches the address. -/
theorem found_iff {pre post : List Image} {image : Image}
    (h : images.list = pre ++ image :: post) :
    findModuleByAddress a (images.list.map Image.dyld) = some image.info ↔
      image.Reaches a ∧ ∀ other ∈ pre, ¬ other.Reaches a := by
  have hmem : image ∈ images.list := by simp [h]
  have hnotMem : image ∉ pre ∧ image ∉ post := by
    have hnodup := nodup images
    rw [h, List.nodup_middle, List.nodup_cons, List.mem_append, not_or] at hnodup
    exact hnodup.1
  rw [findModuleByAddress_eq, Option.map_eq_some_iff]
  constructor
  · rintro ⟨other, hfind, hinfo⟩
    have hother : other = image := info_inj (List.mem_of_find?_eq_some hfind) hmem hinfo
    subst hother
    obtain ⟨hreach, as, bs, hsplit, hnone⟩ := List.find?_eq_some_iff_append.1 hfind
    obtain ⟨rfl, -, -⟩ :=
      (List.append_cons_inj_of_notMem hnotMem.1 hnotMem.2).1 (h.symm.trans hsplit)
    exact ⟨by simpa using hreach, by simpa using hnone⟩
  · rintro ⟨hreach, hnone⟩
    exact ⟨image, List.find?_eq_some_iff_append.2 ⟨by simpa using hreach, pre, post, h,
      by simpa using hnone⟩, rfl⟩

/-- Another image is found exactly when one before reaches too far, or the image itself does
not reach. -/
theorem lookup_exact_iff (images : Images) (a : Addr) : Exact images a ↔ Separated images a := by
  constructor
  · intro h
    constructor
    · intro pre image post hsplit howns
      exact (found_iff hsplit).1 (h.found image (by simp [hsplit]) howns)
    · intro pre image post hsplit hreach hnone
      exact h.sound image (by simp [hsplit]) ((found_iff hsplit).2 ⟨hreach, hnone⟩)
  · intro h
    constructor
    · intro image hmem howns
      obtain ⟨pre, post, hsplit⟩ := List.append_of_mem hmem
      exact (found_iff hsplit).2 (h.owner pre image post hsplit howns)
    · intro image hmem hfound
      obtain ⟨pre, post, hsplit⟩ := List.append_of_mem hmem
      obtain ⟨hreach, hnone⟩ := (found_iff hsplit).1 hfound
      exact h.first pre image post hsplit hreach hnone

end Found

/-! ## §6  Libraries linked at 0 -/

namespace Image

/-- The header is linked at 0, and the slid segments end in the address space. -/
structure LinkedAtZero (image : Image) : Prop where
  text : image.text.vmaddr = 0
  fits : ∀ seg ∈ image.segments,
    image.slide.toNat + seg.vmaddr.toNat + seg.vmsize.toNat < 2 ^ 64

variable {image : Image} (h : image.LinkedAtZero)
include h

theorem LinkedAtZero.linkedEnd_lt : image.slide.toNat + image.linkedEnd < 2 ^ 64 := by
  by_contra hge
  have hslide := image.slide.isLt
  obtain ⟨seg, hseg, hlt⟩ :=
    (image.lt_linkedEnd_iff (2 ^ 64 - 1 - image.slide.toNat)).1 (by omega)
  have hfits := h.fits seg hseg
  rw [BitVec.toNat_add_of_lt (by omega)] at hlt
  omega

/-- Where the distance from the slide is the distance from the header, the reach is right. -/
theorem LinkedAtZero.reaches_iff (a : Addr) : image.Reaches a ↔ image.InExtent a := by
  have hend := h.linkedEnd_lt
  have hheader : image.header.address = image.slide := by simp [header, h.text]
  have hlinked : image.linked a = (2 ^ 64 - image.slide.toNat + a.toNat) % 2 ^ 64 :=
    BitVec.toNat_sub _ _
  have htext : image.text ∈ image.segments := List.mem_filterMap.2 ⟨_, image.textCommand, rfl⟩
  rw [Reaches, hheader, Nat.mod_eq_of_lt hend]
  constructor
  · rintro ⟨hle, hlt⟩
    obtain ⟨seg, hseg, hin⟩ :=
      (image.lt_linkedEnd_iff (a.toNat - image.slide.toNat)).1 (by omega)
    rw [BitVec.toNat_add_of_lt (by have := h.fits seg hseg; omega)] at hin
    exact ⟨⟨image.text, htext, by simp [h.text]⟩, seg, hseg, by omega⟩
  · rintro ⟨-, seg, hseg, hin⟩
    have hfits := h.fits seg hseg
    have hseglt := (image.lt_linkedEnd_iff (image.linked a)).2
      ⟨seg, hseg, by rwa [BitVec.toNat_add_of_lt (by omega)]⟩
    have ha := a.isLt
    omega

end Image

/-- Where all images are linked at 0 and none lies in a gap of another, every address is
looked up right. -/
theorem separated_of_linkedAtZero (images : Images)
    (hzero : ∀ image ∈ images.list, image.LinkedAtZero)
    (hgap : images.list.Pairwise fun i j => ∀ a, ¬ (i.InExtent a ∧ j.InExtent a)) (a : Addr) :
    Separated images a := by
  constructor
  · intro pre image post hsplit howns
    have hmem : ∀ i ∈ pre ++ image :: post, i.LinkedAtZero := hsplit ▸ hzero
    obtain ⟨seg, hseg, hlo, hhi⟩ := howns
    have hin : image.InExtent a := ⟨⟨seg, hseg, hlo⟩, seg, hseg, hhi⟩
    refine ⟨((hmem image (by simp)).reaches_iff a).2 hin, fun other hother hreach => ?_⟩
    rw [hsplit, List.pairwise_append] at hgap
    exact hgap.2.2 other hother image List.mem_cons_self a
      ⟨((hmem other (by simp [hother])).reaches_iff a).1 hreach, hin⟩
  · intro pre image post hsplit hreach _
    exact ((hzero image (by simp [hsplit])).reaches_iff a).1 hreach

section Concrete

/-- A main executable: four gigabytes without access, then its code. -/
def mainImage : Image where
  name := "/bin/main"
  slide := 0
  text := ⟨0x100000000, 0x4000⟩
  commands := [.segment64 ⟨0, 0x100000000⟩, .segment64 ⟨0x100000000, 0x4000⟩, .other]
  textCommand := by decide
  textNonempty := by decide

/-- A library linked at 0. -/
def libImage : Image where
  name := "/usr/lib/libz.dylib"
  slide := 0x100100000
  text := ⟨0, 0x1000⟩
  commands := [.segment64 ⟨0, 0x1000⟩]
  textCommand := by decide
  textNonempty := by decide

theorem mainImage_owns_iff (a : Addr) : mainImage.Owns a ↔ a.toNat < 0x100004000 := by
  simp only [Image.Owns, Image.segments, mainImage, Image.linked]
  simp
  omega

theorem libImage_owns_iff (a : Addr) :
    libImage.Owns a ↔ 0x100100000 ≤ a.toNat ∧ a.toNat < 0x100101000 := by
  simp only [Image.Owns, Image.segments, libImage, Image.linked]
  simp
  omega

def process : Images where
  list := [mainImage, libImage]
  apart := by
    simp [mainImage_owns_iff, libImage_owns_iff]
    omega

/-- The main executable reaches 4 GiB too far, and the library there is taken for it. -/
theorem library_hidden :
    libImage ∈ process.list ∧ libImage.Owns 0x100100800 ∧
      findModuleByAddress 0x100100800 (process.list.map Image.dyld) = some mainImage.info ∧
      ¬ Exact process 0x100100800 := by
  refine ⟨by simp [process], (libImage_owns_iff _).2 (by decide), by decide, ?_⟩
  intro h
  have hfound := h.found libImage (by simp [process]) ((libImage_owns_iff _).2 (by decide))
  revert hfound
  decide

end Concrete

end ImageLookup

end Chromatic
