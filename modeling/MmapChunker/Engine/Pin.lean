import MmapChunker.Source.ByteSource

/-!
File-identity pinning (`src/pin.rs`, Unix).

A `PinnedFile` remembers what `std::fs::metadata` reported of a path and compares it
with what is reported now. The file system is seen through `Stat` alone, so the answers
of two calls need not agree.

`revalidate_ok_iff` says what a pin guards: the classes its flags enable, and nothing
about a modification time that is missing on either side.
-/

namespace Pin

open Source

/-! ### Source -/

/-- `PIN_SIZE`. -/
def pinSize : UInt32 := 1

/-- `PIN_IDENTITY`. -/
def pinIdentity : UInt32 := 2

/-- `PIN_MTIME`. -/
def pinMtime : UInt32 := 4

/-- `PIN_ALL`, also `PIN_KNOWN_MASK`. -/
def pinAll : UInt32 := pinSize ||| pinIdentity ||| pinMtime

/-- Unknown flag bits as `{:#x}` shows them. -/
def showHex (bits : UInt32) : String := "0x" ++ String.ofList (Nat.toDigits 16 bits.toNat)

/-- `effective_flags`. -/
def effectiveFlags (flags : UInt32) : Except IoError UInt32 :=
  if flags &&& ~~~pinAll ≠ 0 then
    .error ⟨.invalidInput, "unknown pin flag bits: " ++ showHex (flags &&& ~~~pinAll)⟩
  else if flags = 0 then .ok pinAll
  else .ok flags

/-- `std::fs::Metadata`, as far as a pin reads it; times are in nanoseconds. -/
structure Metadata where
  len : UInt64
  modified : Except IoError Int
  dev : UInt64
  ino : UInt64

/-- What `std::fs::metadata` says of each path at one moment. -/
abbrev Stat := Path → Except IoError Metadata

/-- `FileIdentity`. -/
structure FileIdentity where
  size : UInt64
  mtime : Option Int
  dev : UInt64
  ino : UInt64
  deriving Repr, DecidableEq

/-- `FileIdentity::capture_from_metadata`. -/
def FileIdentity.captureFromMetadata (metadata : Metadata) : FileIdentity :=
  ⟨metadata.len, metadata.modified.toOption, metadata.dev, metadata.ino⟩

/-- `PinMismatchKind`. -/
inductive PinMismatchKind where
  | rotated
  | replaced
  | truncated
  | mtimeJump
  | metadataUnavailable
  deriving Repr, DecidableEq

/-- `PinMismatchKind` as it displays. -/
def PinMismatchKind.display : PinMismatchKind → String
  | rotated => "rotated"
  | replaced => "replaced"
  | truncated => "truncated"
  | mtimeJump => "mtime-jump"
  | metadataUnavailable => "metadata-unavailable"

/-- `PinMismatch`. -/
structure PinMismatch where
  kind : PinMismatchKind
  detail : String
  deriving Repr, DecidableEq

/-- `PinMismatch` as it displays. -/
def PinMismatch.display (mismatch : PinMismatch) : String :=
  "file identity changed (" ++ mismatch.kind.display ++ "): " ++ mismatch.detail

/-- `PinnedFile`. -/
structure PinnedFile where
  path : Path
  identity : FileIdentity
  flags : UInt32
  deriving Repr, DecidableEq

/-- `PinnedFile::capture`. -/
def PinnedFile.capture (stat : Stat) (path : Path) (flags : UInt32) :
    Except IoError PinnedFile := do
  let _ ← effectiveFlags flags
  let metadata ← stat path
  return ⟨path, .captureFromMetadata metadata, flags⟩

/-- The comparisons of `revalidate`; the first class that changed is reported. -/
def compareIdentity (effective : UInt32) (old current : FileIdentity) :
    Except PinMismatch Unit :=
  if effective &&& pinIdentity ≠ 0 ∧ (current.dev ≠ old.dev ∨ current.ino ≠ old.ino) then
    .error ⟨.replaced, s!"file key changed (dev/ino {old.dev}:{old.ino} -> " ++
      s!"{current.dev}:{current.ino})"⟩
  else if effective &&& pinSize ≠ 0 ∧ current.size ≠ old.size then
    .error ⟨.truncated, s!"file size changed ({old.size} -> {current.size})"⟩
  else if effective &&& pinMtime ≠ 0 ∧ old.mtime.isSome ∧ current.mtime.isSome ∧
      old.mtime ≠ current.mtime then
    .error ⟨.mtimeJump, "modification time changed"⟩
  else .ok ()

/-- `PinnedFile::revalidate`. -/
def PinnedFile.revalidate (pinned : PinnedFile) (stat : Stat) : Except PinMismatch Unit :=
  match effectiveFlags pinned.flags with
  | .error e => .error ⟨.metadataUnavailable, "invalid pin flags: " ++ e.message⟩
  | .ok effective =>
      match stat pinned.path with
      | .error e => .error ⟨.metadataUnavailable, "cannot stat pinned path: " ++ e.message⟩
      | .ok metadata =>
          compareIdentity effective pinned.identity (.captureFromMetadata metadata)

/-! ### What a pin guards -/

/-- The enabled classes agree; a missing modification time agrees with any. -/
structure Unchanged (effective : UInt32) (old current : FileIdentity) : Prop where
  identity : effective &&& pinIdentity ≠ 0 → current.dev = old.dev ∧ current.ino = old.ino
  size : effective &&& pinSize ≠ 0 → current.size = old.size
  mtime : effective &&& pinMtime ≠ 0 → old.mtime.isSome → current.mtime.isSome →
    old.mtime = current.mtime

theorem ite_error_eq_ok {ε α : Type} {p : Prop} [Decidable p] {e : ε} {x : Except ε α} {a : α} :
    (if p then .error e else x) = .ok a ↔ ¬p ∧ x = .ok a := by
  split
  · rename_i holds
    exact ⟨fun eq => (by cases eq), fun ⟨fails, _⟩ => (fails holds).elim⟩
  · rename_i fails
    exact ⟨fun eq => ⟨fails, eq⟩, fun ⟨_, eq⟩ => eq⟩

theorem compareIdentity_ok_iff {effective : UInt32} {old current : FileIdentity} :
    compareIdentity effective old current = .ok () ↔ Unchanged effective old current := by
  rw [compareIdentity, ite_error_eq_ok, ite_error_eq_ok, ite_error_eq_ok]
  constructor
  · rintro ⟨sameKey, sameSize, sameTime, -⟩
    refine ⟨fun enabled => ?_, fun enabled => ?_, fun enabled known known' => ?_⟩
    · have same := not_or.mp fun changed => sameKey ⟨enabled, changed⟩
      exact ⟨not_not.mp same.1, not_not.mp same.2⟩
    · exact not_not.mp fun changed => sameSize ⟨enabled, changed⟩
    · exact not_not.mp fun changed => sameTime ⟨enabled, known, known', changed⟩
  · intro same
    refine ⟨fun ⟨enabled, changed⟩ => ?_, fun ⟨enabled, changed⟩ => ?_,
      fun ⟨enabled, known, known', changed⟩ => ?_, rfl⟩
    · obtain ⟨dev, ino⟩ := same.identity enabled
      exact changed.elim (· dev) (· ino)
    · exact changed (same.size enabled)
    · exact changed (same.mtime enabled known known')

/-- **A pin passes exactly when the path can be read and no enabled class changed.** -/
theorem revalidate_ok_iff {pinned : PinnedFile} {stat : Stat} :
    pinned.revalidate stat = .ok () ↔
      ∃ effective metadata, effectiveFlags pinned.flags = .ok effective ∧
        stat pinned.path = .ok metadata ∧
        Unchanged effective pinned.identity (.captureFromMetadata metadata) := by
  unfold PinnedFile.revalidate
  cases flags : effectiveFlags pinned.flags with
  | error e => exact ⟨fun passes => (by cases passes), fun ⟨_, _, known, _⟩ => (by cases known)⟩
  | ok effective =>
      cases live : stat pinned.path with
      | error e =>
          exact ⟨fun passes => (by cases passes), fun ⟨_, _, _, known, _⟩ => (by cases known)⟩
      | ok metadata =>
          constructor
          · exact fun passes => ⟨effective, metadata, rfl, rfl, compareIdentity_ok_iff.mp passes⟩
          · rintro ⟨_, _, sameFlags, sameLive, same⟩
            cases sameFlags
            cases sameLive
            exact compareIdentity_ok_iff.mpr same

/-- The path cannot be read, or an enabled class is known on both sides and differs. -/
def PinnedFile.Changed (pinned : PinnedFile) (stat : Stat) : Prop :=
  (∃ e, stat pinned.path = .error e) ∨
  ∃ effective metadata, effectiveFlags pinned.flags = .ok effective ∧
    stat pinned.path = .ok metadata ∧
    ((effective &&& pinIdentity ≠ 0 ∧
        (metadata.dev ≠ pinned.identity.dev ∨ metadata.ino ≠ pinned.identity.ino)) ∨
      (effective &&& pinSize ≠ 0 ∧ metadata.len ≠ pinned.identity.size) ∨
      (effective &&& pinMtime ≠ 0 ∧ ∃ old new, pinned.identity.mtime = some old ∧
        metadata.modified = .ok new ∧ old ≠ new))

/-- **A pin catches every visible change.** -/
theorem revalidate_of_changed {pinned : PinnedFile} {stat : Stat} (changed : pinned.Changed stat) :
    ∃ err, pinned.revalidate stat = .error err := by
  cases live : pinned.revalidate stat with
  | error err => exact ⟨err, rfl⟩
  | ok =>
      obtain ⟨effective, metadata, known, there, same⟩ := revalidate_ok_iff.mp live
      rcases changed with ⟨e, failed⟩ | ⟨effective', metadata', known', there', differs⟩
      · cases there.symm.trans failed
      · cases known.symm.trans known'
        cases there.symm.trans there'
        rcases differs with ⟨enabled, key⟩ | ⟨enabled, size⟩ | ⟨enabled, old, new, was, is_, ne⟩
        · obtain ⟨dev, ino⟩ := same.identity enabled
          exact (key.elim (· dev) (· ino)).elim
        · exact (size (same.size enabled)).elim
        · have is' : (FileIdentity.captureFromMetadata metadata).mtime = some new := by
            rw [FileIdentity.captureFromMetadata, is_]
            rfl
          have equal := same.mtime enabled (by rw [was]; rfl) (by rw [is']; rfl)
          rw [was, is', Option.some.injEq] at equal
          exact (ne equal).elim

/-- A captured file passes while its path reports the same. -/
theorem revalidate_capture {stat : Stat} {path : Path} {flags : UInt32} {pinned : PinnedFile}
    (captured : PinnedFile.capture stat path flags = .ok pinned) :
    pinned.revalidate stat = .ok () := by
  unfold PinnedFile.capture at captured
  cases known : effectiveFlags flags with
  | error e => rw [known] at captured; cases captured
  | ok effective =>
      cases live : stat path with
      | error e => rw [known, live] at captured; cases captured
      | ok metadata =>
          rw [known, live] at captured
          cases captured
          exact revalidate_ok_iff.mpr ⟨effective, metadata, known, live,
            fun _ => ⟨rfl, rfl⟩, fun _ => rfl, fun _ _ _ => rfl⟩

end Pin
