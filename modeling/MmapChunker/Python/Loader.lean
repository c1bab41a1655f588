import MmapChunker.Python.Bundled
import MmapChunker.Theory.Once

/-!
Loading the native library (`python/mmap_chunker/_native.py`).

`libraryPath` finds the file for the platform inside the package, `load` loads it and looks
up the functions that are called, and `validate` asks for the version of the interface and
its capabilities. `getLibrary` does this once: what was accepted stays.

What is installed is a parameter, and may be another thing at each call. `get_library_once`
says which libraries are accepted, what is raised otherwise, and what any sequence of calls
gets.
-/

namespace Python

/-! ### Source -/

/-- `ABI_VERSION`. -/
def abiVersion : UInt32 := 0x00010006

/-- `ABI_VERSION_TEXT`. -/
def abiVersionText : String := "v1.6"

/-- `_REQUIRED_CAPABILITY`, which is `CAP_RECORD_PARTITIONING`. -/
def requiredCapability : UInt32 := 0x10

/-- `platform.system().lower()` and `platform.machine()`. -/
structure Platform where
  system : String
  machine : String

/-- `_LIBRARY_NAMES`. -/
def libraryNames : List ((String × String) × String) :=
  [(("linux", "x86_64"), "libmmap_chunker_core.so"),
    (("linux", "aarch64"), "libmmap_chunker_core.so"),
    (("linux", "arm64"), "libmmap_chunker_core.so"),
    (("darwin", "x86_64"), "libmmap_chunker_core.dylib"),
    (("darwin", "arm64"), "libmmap_chunker_core.dylib"),
    (("win32", "AMD64"), "mmap_chunker_core.dll")]

/-- `_platform_key`. -/
def platformKey (platform : Platform) : String × String :=
  if platform.system = "linux" ∧ platform.machine = "x86_64" then ("linux", "x86_64")
  else if platform.system = "linux" ∧ platform.machine ∈ ["aarch64", "arm64"] then
    ("linux", "aarch64")
  else if platform.system = "darwin" ∧ platform.machine ∈ ["x86_64", "AMD64"] then
    ("darwin", "x86_64")
  else if platform.system = "darwin" ∧ platform.machine ∈ ["arm64", "aarch64"] then
    ("darwin", "arm64")
  else if platform.system = "windows" ∧ platform.machine ∈ ["AMD64", "x86_64"] then
    ("win32", "AMD64")
  else (platform.system, platform.machine)

/-- A shared library that was loaded: the names it exports, what its two discovery functions
answer or the text of the `OSError` they raise, and its other functions. -/
structure Image (α : Type) where
  exports : List String
  mmapEngineAbiVersion : Except String UInt32
  mmapEngineCapabilities : Except String UInt32
  functions : α

/-- What is installed when the library is asked for. `cdll` is `ctypes.CDLL`, or the text of
its `OSError`; `undefinedSymbol` is the text of the `AttributeError` for a name that the
library at a path does not export. -/
structure Installation (α : Type) where
  platform : Platform
  packageDir : String
  isFile : String → Bool
  cdll : String → Except String (Image α)
  undefinedSymbol : String → String → String
  reprStr : String → String

/-- `_library_name`. -/
def libraryName {α : Type} (i : Installation α) : Except PyException String :=
  let key := platformKey i.platform
  match libraryNames.lookup key with
  | some name => .ok name
  | none => .error ⟨.nativeLibraryError,
      "no bundled native library for platform/architecture " ++ i.reprStr key.1 ++ "/" ++
        i.reprStr key.2 ++ ". Supported platforms: Linux x86_64, " ++
        "Linux aarch64, macOS x86_64, macOS arm64, Windows x86_64. " ++
        "The native ABI is 64-bit only."⟩

/-- `library_path`. -/
def libraryPath {α : Type} (i : Installation α) : Except PyException String := do
  let name ← libraryName i
  let candidate := i.packageDir ++ "/_native/" ++ name
  if i.isFile candidate = false then
    throw ⟨.nativeLibraryError, "bundled native library not found at " ++ candidate ++ ". " ++
      "The installed wheel does not match this platform/architecture, " ++
      "or the package was not installed from a matching wheel. " ++
      "Reinstall with a wheel built for this platform (see the " ++
      "platform matrix in the distribution documentation)."⟩
  return candidate

/-- The names `_configure` looks up, in this order. -/
def configuredSymbols : List String :=
  ["mmap_engine_abi_version", "mmap_engine_capabilities", "mmap_engine_last_error",
    "mmap_engine_open", "mmap_engine_partition_records", "mmap_engine_get_chunk",
    "mmap_engine_free", "mmap_engine_plan_partition_ranges"]

section Source

variable {α : Type}

/-- `_configure`: a name that is not exported is an `AttributeError`. -/
def configure (i : Installation α) (path : String) (image : Image α) :
    Except PyException Unit :=
  match configuredSymbols.find? fun symbol => symbol ∉ image.exports with
  | none => .ok ()
  | some symbol => .error ⟨.attributeError, i.undefinedSymbol path symbol⟩

/-- `_load`. The `try` ends before `_configure`. -/
def load (i : Installation α) (path : String) : Except PyException (Image α) :=
  match i.cdll path with
  | .error text => .error ⟨.nativeLibraryError,
      "failed to load bundled native library " ++ path ++ ": " ++ text ++ ". " ++
        "On Windows ensure the required VC++ runtime is installed " ++
        "(Visual C++ Redistributable)."⟩
  | .ok image => do
      configure i path image
      return image

/-- `08x`. -/
def hex08 (n : UInt32) : String :=
  let digits := Nat.toDigits 16 n.toNat
  String.ofList (List.replicate (8 - digits.length) '0' ++ digits)

/-- `_validate`. -/
def validate (image : Image α) : Except PyException Unit :=
  let asked : Except String (UInt32 × UInt32) := do
    let abi ← image.mmapEngineAbiVersion
    let capabilities ← image.mmapEngineCapabilities
    return (abi, capabilities)
  match asked with
  | .error text => .error ⟨.nativeLibraryError,
      "bundled native library is not a mmap-chunker-core library: " ++ text⟩
  | .ok (abi, capabilities) =>
      if abi ≠ abiVersion then
        .error ⟨.nativeLibraryError, "ABI mismatch: bundled library reports ABI 0x" ++ hex08 abi ++
          ", expected 0x" ++ hex08 abiVersion ++ " (" ++ abiVersionText ++ "). " ++
          "Install a wheel whose native library matches this Python package."⟩
      else if capabilities &&& requiredCapability = 0 then
        .error ⟨.nativeLibraryError,
          "bundled native library lacks the RECORD_PARTITIONING capability " ++
            "(capabilities=0x" ++ hex08 capabilities ++ "), which plan_file requires."⟩
      else .ok ()

/-- What `get_library` does when there is no library yet. -/
def openLibrary (i : Installation α) : Except PyException (Image α) := do
  let path ← libraryPath i
  let loaded ← load i path
  validate loaded
  return loaded

/-- `get_library`, with `_lib`. -/
def getLibrary (i : Installation α) (lib : Option (Image α)) :
    Except PyException (Image α) × Option (Image α) :=
  match lib with
  | some loaded => (.ok loaded, some loaded)
  | none =>
      match openLibrary i with
      | .error e => (.error e, none)
      | .ok loaded => (.ok loaded, some loaded)

/-- Calls of `get_library`, one after the other, and `_lib` after them. -/
def getLibraries (lib : Option (Image α)) :
    List (Installation α) → List (Except PyException (Image α)) × Option (Image α)
  | [] => ([], lib)
  | i :: calls =>
      let (outcome, lib) := getLibrary i lib
      let (outcomes, lib) := getLibraries lib calls
      (outcome :: outcomes, lib)

end Source

/-! ### What is accepted -/

section Accepted

variable {α : Type} {i : Installation α} {image : Image α}

/-- A library that the package can work with. -/
structure Image.Usable (image : Image α) : Prop where
  exported : ∀ symbol ∈ configuredSymbols, symbol ∈ image.exports
  version : image.mmapEngineAbiVersion = .ok abiVersion
  capable : ∃ capabilities, image.mmapEngineCapabilities = .ok capabilities ∧
    capabilities &&& requiredCapability ≠ 0

/-- All names are found, or the first one that is not is reported. -/
theorem configure_cases (i : Installation α) (path : String) (image : Image α) :
    (configure i path image = .ok () ∧ ∀ symbol ∈ configuredSymbols, symbol ∈ image.exports) ∨
    ∃ symbol ∈ configuredSymbols, symbol ∉ image.exports ∧
      configure i path image = .error ⟨.attributeError, i.undefinedSymbol path symbol⟩ := by
  unfold configure
  cases found : configuredSymbols.find? fun symbol => symbol ∉ image.exports with
  | none =>
      have all := List.find?_eq_none.mp found
      exact .inl ⟨rfl, by simpa using all⟩
  | some symbol =>
      have missing : symbol ∉ image.exports := by simpa using List.find?_some found
      exact .inr ⟨symbol, List.mem_of_find?_eq_some found, missing, rfl⟩

theorem configure_ok_iff {path : String} :
    configure i path image = .ok () ↔ ∀ symbol ∈ configuredSymbols, symbol ∈ image.exports := by
  rcases configure_cases i path image with ⟨ok, exported⟩ | ⟨symbol, mem, missing, failed⟩
  · exact iff_of_true ok exported
  · rw [failed]
    exact iff_of_false (by simp) fun exported => missing (exported symbol mem)

theorem validate_ok_iff :
    validate image = .ok () ↔ image.mmapEngineAbiVersion = .ok abiVersion ∧
      ∃ capabilities, image.mmapEngineCapabilities = .ok capabilities ∧
        capabilities &&& requiredCapability ≠ 0 := by
  unfold validate
  cases version : image.mmapEngineAbiVersion with
  | error text => simp [bind, Except.bind]
  | ok abi =>
      cases capable : image.mmapEngineCapabilities with
      | error text => simp [bind, Except.bind]
      | ok capabilities =>
          by_cases same : abi = abiVersion
          · by_cases none : capabilities &&& requiredCapability = 0
            · simp [bind, Except.bind, pure, Except.pure, same, none]
            · simp [bind, Except.bind, pure, Except.pure, same, none]
          · simp [bind, Except.bind, pure, Except.pure, same]

theorem libraryPath_error {e : PyException} (failed : libraryPath i = .error e) :
    e.type = .nativeLibraryError := by
  unfold libraryPath libraryName at failed
  dsimp only at failed
  cases name : libraryNames.lookup (platformKey i.platform) with
  | none =>
      rw [name] at failed
      cases failed
      rfl
  | some file =>
      rw [name] at failed
      simp only [bind, Except.bind, throw, throwThe, MonadExceptOf.throw] at failed
      split at failed
      · cases failed
        rfl
      · cases failed

theorem configure_error {path : String} {e : PyException}
    (failed : configure i path image = .error e) :
    e.type = .attributeError ∧ ∃ symbol ∈ configuredSymbols, symbol ∉ image.exports := by
  rcases configure_cases i path image with ⟨ok, -⟩ | ⟨symbol, mem, missing, eq⟩
  · cases ok.symm.trans failed
  · cases eq.symm.trans failed
    exact ⟨rfl, symbol, mem, missing⟩

theorem load_eq {path : String} (loaded : i.cdll path = .ok image) :
    load i path = configure i path image >>= fun _ => .ok image := by
  rw [load, loaded]
  rfl

/-- A library that can be loaded and exports what is looked up. -/
theorem load_ok_iff {path : String} :
    load i path = .ok image ↔
      i.cdll path = .ok image ∧ ∀ symbol ∈ configuredSymbols, symbol ∈ image.exports := by
  constructor
  · intro ok
    cases loaded : i.cdll path with
    | error text =>
        rw [load, loaded] at ok
        cases ok
    | ok image' =>
        rw [load_eq loaded] at ok
        obtain ⟨_, configured, same⟩ := Exec.bind_ok ok
        cases same
        exact ⟨rfl, configure_ok_iff.mp configured⟩
  · rintro ⟨loaded, exported⟩
    rw [load_eq loaded, configure_ok_iff.mpr exported]
    rfl

/-- Loading fails because the file cannot be loaded, or because a name is missing in it. -/
theorem load_error {path : String} {e : PyException} (failed : load i path = .error e) :
    e.type = .nativeLibraryError ∨
      e.type = .attributeError ∧ ∃ image, i.cdll path = .ok image ∧
        ∃ symbol ∈ configuredSymbols, symbol ∉ image.exports := by
  cases loaded : i.cdll path with
  | error text =>
      rw [load, loaded] at failed
      cases failed
      exact .inl rfl
  | ok image =>
      rw [load_eq loaded] at failed
      rcases Exec.bind_error failed with configured | ⟨_, -, impossible⟩
      · obtain ⟨type, missing⟩ := configure_error configured
        exact .inr ⟨type, image, rfl, missing⟩
      · cases impossible

theorem validate_error {e : PyException} (failed : validate image = .error e) :
    e.type = .nativeLibraryError := by
  unfold validate at failed
  dsimp only at failed
  split at failed
  · cases failed
    rfl
  · split_ifs at failed <;> cases failed <;> rfl

/-- The library that is handed out is the one in the package, and usable. -/
theorem openLibrary_ok_iff :
    openLibrary i = .ok image ↔
      ∃ path, libraryPath i = .ok path ∧ i.cdll path = .ok image ∧ image.Usable := by
  constructor
  · intro ok
    obtain ⟨path, found, ok⟩ := Exec.bind_ok ok
    obtain ⟨loaded, loads, ok⟩ := Exec.bind_ok ok
    obtain ⟨_, valid, ok⟩ := Exec.bind_ok ok
    cases ok
    obtain ⟨same, exported⟩ := load_ok_iff.mp loads
    obtain ⟨version, capable⟩ := validate_ok_iff.mp valid
    exact ⟨path, found, same, exported, version, capable⟩
  · rintro ⟨path, found, loaded, usable⟩
    unfold openLibrary
    rw [found]
    change (load i path >>= fun loaded => validate loaded >>= fun _ => .ok loaded) = _
    rw [load_ok_iff.mpr ⟨loaded, usable.exported⟩]
    change (validate image >>= fun _ => .ok image) = _
    rw [validate_ok_iff.mpr ⟨usable.version, usable.capable⟩]
    rfl

/-- A library is refused with `NativeLibraryError`, unless it lacks a name that is looked up. -/
theorem openLibrary_error {e : PyException} (failed : openLibrary i = .error e) :
    e.type = .nativeLibraryError ∨
      e.type = .attributeError ∧ ∃ path image, libraryPath i = .ok path ∧
        i.cdll path = .ok image ∧ ∃ symbol ∈ configuredSymbols, symbol ∉ image.exports := by
  rcases Exec.bind_error failed with notFound | ⟨path, found, failed⟩
  · exact .inl (libraryPath_error notFound)
  rcases Exec.bind_error failed with notLoaded | ⟨loaded, loads, failed⟩
  · rcases load_error notLoaded with native | ⟨type, image, loaded, missing⟩
    · exact .inl native
    · exact .inr ⟨type, path, image, found, loaded, missing⟩
  rcases Exec.bind_error failed with invalid | ⟨_, -, impossible⟩
  · exact .inl (validate_error invalid)
  · cases impossible

/-- A name that is missing shows as `AttributeError`. -/
theorem openLibrary_missing {path symbol : String} (found : libraryPath i = .ok path)
    (loaded : i.cdll path = .ok image) (mem : symbol ∈ configuredSymbols)
    (missing : symbol ∉ image.exports) :
    ∃ e, openLibrary i = .error e ∧ e.type = .attributeError := by
  rcases configure_cases i path image with ⟨-, exported⟩ | ⟨first, _, _, configured⟩
  · exact absurd (exported symbol mem) missing
  · refine ⟨⟨.attributeError, i.undefinedSymbol path first⟩, ?_, rfl⟩
    unfold openLibrary
    rw [found]
    change (load i path >>= fun loaded => validate loaded >>= fun _ => .ok loaded) = _
    rw [load_eq loaded, configured]
    rfl

end Accepted

/-! ### Calls -/

section Calls

variable {α : Type}

theorem getLibrary_eq (i : Installation α) (lib : Option (Image α)) :
    getLibrary i lib = Once.fill (openLibrary i) lib := by
  cases lib with
  | some loaded => rfl
  | none =>
      unfold getLibrary Once.fill
      cases openLibrary i <;> rfl

theorem getLibraries_eq (lib : Option (Image α)) (calls : List (Installation α)) :
    getLibraries lib calls = Once.run lib (calls.map openLibrary) := by
  induction calls generalizing lib with
  | nil => rfl
  | cons i calls ih =>
      rw [List.map_cons, Once.run_cons, ← getLibrary_eq, ← ih]
      rfl

end Calls

/-- `mmap_engine_abi_version`. -/
def mmapEngineAbiVersion : UInt32 := 0x00010006

/-- The functions with `#[no_mangle]`. -/
def exportedFunctions : List String :=
  ["mmap_engine_abi_version", "mmap_engine_capabilities", "mmap_engine_last_error",
    "mmap_engine_open", "mmap_engine_open_pinned", "mmap_engine_scan_chunks",
    "mmap_engine_scan_chunks_ex", "mmap_engine_scan_chunks_pattern", "mmap_engine_scan_fixed",
    "mmap_engine_partition_records", "mmap_engine_partition_records_pattern",
    "mmap_engine_plan_partition_ranges", "mmap_engine_get_chunk", "mmap_engine_free"]

/-- The library of the repository, as a file: its functions are those of `bundledLibrary`. -/
def bundledImage {ω : Type} (process : Process ω) : Image (NativeLibrary (Client ω)) where
  exports := exportedFunctions
  mmapEngineAbiVersion := .ok Python.mmapEngineAbiVersion
  mmapEngineCapabilities := .ok Python.mmapEngineCapabilities
  functions := bundledLibrary process

theorem bundledImage_usable {ω : Type} (process : Process ω) :
    (bundledImage process).Usable where
  exported := show ∀ symbol ∈ configuredSymbols, symbol ∈ exportedFunctions by decide
  version := rfl
  capable := ⟨_, rfl, by decide⟩

end Python
