import MmapChunker.Mmap.Windowed

/-!
Opening a path for mapping (`src/mmap.rs`).

The file system is a function from paths to nodes and does not change. Everything is
opened behind one gate, `probeMmapEligible`, which follows links and refuses what is
no regular file. Behind it only a file that cannot be read is still refused.
-/

namespace Mmap

open Machine Source

/-! ### The file system -/

/-- What is there but is no regular file. -/
inductive Special where
  | directory
  | fifo
  | socket
  | device
  deriving Repr, DecidableEq

/-- What a path leads to: a file that can be read, a file that cannot be opened, or no
regular file; all have a length. -/
inductive Entry where
  | readable (data : Slice)
  | unreadable (len : Nat) (len_le : len ≤ usizeMax) (error : IoError)
  | special (kind : Special) (len : Nat) (len_le : len ≤ usizeMax)

/-- What stands at a path. A symbolic link without an entry dangles. -/
inductive Node where
  | missing
  | entry (entry : Entry)
  | symlink (target : Option Entry)

abbrev FileSystem := Path → Node

/-- `std::fs::FileType`. -/
inductive FileType where
  | file
  | symlink
  | special (kind : Special)
  deriving Repr, DecidableEq

namespace Entry

/-- `metadata.len()`. -/
def len : Entry → Nat
  | readable data => data.len
  | unreadable len _ _ => len
  | special _ len _ => len

/-- `metadata.file_type()`. -/
def fileType : Entry → FileType
  | readable _ => .file
  | unreadable _ _ _ => .file
  | special kind _ _ => .special kind

theorem len_le : ∀ entry : Entry, entry.len ≤ usizeMax
  | readable data => data.len_le_usizeMax
  | unreadable _ len_le _ => len_le
  | special _ _ len_le => len_le

end Entry

/-- The error for a path without an entry. -/
def notFound : IoError := ⟨.notFound, "No such file or directory (os error 2)"⟩

namespace FileSystem

/-- What a path leads to, links followed. -/
def follow (fs : FileSystem) (path : Path) : Option Entry :=
  match fs path with
  | .missing => none
  | .entry entry => some entry
  | .symlink target => target

/-- `std::fs::metadata(path)`. -/
def metadata (fs : FileSystem) (path : Path) : Except IoError Entry :=
  match fs.follow path with
  | none => .error notFound
  | some entry => .ok entry

/-- `std::fs::symlink_metadata(path)`, reduced to the file type. -/
def symlinkMetadata (fs : FileSystem) (path : Path) : Except IoError FileType :=
  match fs path with
  | .missing => .error notFound
  | .entry entry => .ok entry.fileType
  | .symlink _ => .ok .symlink

/-- `open(path, O_RDONLY)`, for what the gate lets through. -/
def openReadOnly (fs : FileSystem) (path : Path) : Except IoError Slice :=
  match fs.follow path with
  | none => .error notFound
  | some (.readable data) => .ok data
  | some (.unreadable _ _ error) => .error error
  | some (.special _ _ _) => .error ⟨.other, "not opened"⟩

end FileSystem

/-! ### Source -/

/-- The text with which the gate refuses what is no regular file. -/
def refusal : Special → String
  | .directory => "not a regular file: is a directory"
  | .fifo => "not a regular file: is a fifo"
  | .socket => "not a regular file: is a socket"
  | .device => "not a regular file: unsupported file type"

/-- `probe_mmap_eligible`. -/
def probeMmapEligible (fs : FileSystem) (path : Path) : Except IoError Unit := do
  let linkType ← fs.symlinkMetadata path
  let fileType ← if linkType = .symlink then (fs.metadata path).map Entry.fileType
    else pure linkType
  match fileType with
  | .file => pure ()
  | .special kind => throw ⟨.invalidInput, refusal kind⟩
  | .symlink => throw ⟨.invalidInput, refusal .device⟩

/-- `MmapFile::open`: probe again, open and map the whole file. -/
def mmapFileOpen (fs : FileSystem) (path : Path) : Option Slice :=
  match probeMmapEligible fs path with
  | .error _ => none
  | .ok _ => (fs.openReadOnly path).toOption

/-- `MmapFile::open_path`. -/
def mmapFileOpenPath (fs : FileSystem) (path : Path) : Except IoError Slice := do
  probeMmapEligible fs path
  match mmapFileOpen fs path with
  | some data => pure data
  | none => throw ⟨.other, "failed to open or map file"⟩

/-- `WindowedMmapFile::open_path`. -/
def windowedOpenPath (fs : FileSystem) (path : Path) (windowBytes : Nat)
    (window_le : windowBytes ≤ usizeMax) : Except IoError WindowedMmapFile := do
  probeMmapEligible fs path
  if small : windowBytes < viewAlignment then
    throw ⟨.invalidInput, "window_bytes must be at least 64 KiB"⟩
  else
    let data ← fs.openReadOnly path
    pure ⟨data.bytes, windowBytes, data.fits, Nat.not_lt.mp small, window_le⟩

/-! ### What is refused -/

section Refusal

variable {fs : FileSystem} {path : Path}

/-- The gate passes regular files, readable or not. -/
theorem probeMmapEligible_eq (fs : FileSystem) (path : Path) :
    probeMmapEligible fs path =
      match fs.follow path with
      | none => .error notFound
      | some (.readable _) => .ok ()
      | some (.unreadable _ _ _) => .ok ()
      | some (.special kind _ _) => .error ⟨.invalidInput, refusal kind⟩ := by
  unfold probeMmapEligible FileSystem.symlinkMetadata FileSystem.metadata FileSystem.follow
  cases fs path with
  | missing => rfl
  | entry entry => cases entry <;> rfl
  | symlink target =>
      cases target with
      | none => rfl
      | some entry => cases entry <;> rfl

/-- The bytes of a path that can be read, or the error with which it is refused when
a source is opened on demand. -/
def served (fs : FileSystem) (path : Path) : Except IoError Slice :=
  match fs.follow path with
  | none => .error notFound
  | some (.readable data) => .ok data
  | some (.unreadable _ _ error) => .error error
  | some (.special kind _ _) => .error ⟨.invalidInput, refusal kind⟩

/-- Mapping a file as a whole fails on exactly the paths that are not served. -/
theorem mmapFileOpenPath_ok_iff {data : Slice} :
    mmapFileOpenPath fs path = .ok data ↔ served fs path = .ok data := by
  unfold mmapFileOpenPath mmapFileOpen served FileSystem.openReadOnly
  rw [probeMmapEligible_eq]
  cases fs.follow path with
  | none => exact Iff.rfl
  | some entry =>
      cases entry with
      | readable _ => exact Iff.rfl
      | unreadable _ _ error => exact ⟨fun eq => (by cases eq), fun eq => (by cases eq)⟩
      | special kind _ _ => exact Iff.rfl

/-- A windowed file is opened on exactly the paths that are served. -/
theorem windowedOpenPath_eq {windowBytes : Nat} (window_ge : viewAlignment ≤ windowBytes)
    (window_le : windowBytes ≤ usizeMax) :
    windowedOpenPath fs path windowBytes window_le = (served fs path).map fun data =>
      ⟨data.bytes, windowBytes, data.fits, window_ge, window_le⟩ := by
  unfold windowedOpenPath served FileSystem.openReadOnly
  rw [probeMmapEligible_eq, dif_neg (Nat.not_lt.mpr window_ge)]
  cases fs.follow path with
  | none => rfl
  | some entry => cases entry <;> rfl

/-- Probing and then opening read-only serves a path. -/
theorem probe_openReadOnly_eq (fs : FileSystem) (path : Path) :
    (do probeMmapEligible fs path; fs.openReadOnly path : Except IoError Slice) =
      served fs path := by
  unfold served FileSystem.openReadOnly
  rw [probeMmapEligible_eq]
  cases fs.follow path with
  | none => rfl
  | some entry => cases entry <;> rfl

/-- What is served has the length its metadata says. -/
theorem len_of_served {data : Slice} (ok : served fs path = .ok data) :
    fs.metadata path = .ok (.readable data) := by
  unfold served at ok
  unfold FileSystem.metadata
  cases found : fs.follow path with
  | none =>
      rw [found] at ok
      cases ok
  | some entry =>
      rw [found] at ok
      cases entry <;> cases ok
      rfl

end Refusal

end Mmap
