import MmapChunker.Theory.Exec
import MmapChunker.Theory.Machine
import MmapChunker.Theory.Occurrence
import MmapChunker.Theory.Text

/-!
Byte sources (`src/source.rs`).

A `ByteSource` is read through `read_at`, which may return fewer bytes than it was
asked for. Its implementation may keep state, so `readAt` is a computation over some
state type; nothing is fixed about how many bytes a read returns or how that depends
on earlier reads.

`Conforms` is what the trait promises, `ConformsOrFails` what it promises of the reads
that succeed. Under it a fill loop reads exactly the bytes it is after, whatever the
schedule of short reads is, unless a read fails (`fillWindow_outcome`).
-/

namespace Source

open Machine Exec

/-! ### Source -/

/-- The `std::io::ErrorKind`s that occur. -/
inductive IoErrorKind where
  | invalidInput
  | outOfMemory
  | notFound
  | permissionDenied
  | invalidData
  | other
  deriving Repr, DecidableEq

/-- `std::io::Error`: its kind, and the text it displays. -/
structure IoError where
  kind : IoErrorKind
  message : String
  deriving Repr, DecidableEq

/-- An `OsString`: a text, or bytes that are none. -/
inductive OsString where
  | ofText (text : String)
  | ofBytes (bytes : List UInt8) (invalid : none ∈ Text.utf8Parts bytes)
  deriving Repr, DecidableEq

namespace OsString

/-- Whether it is a text. -/
def unicode : OsString → Bool
  | ofText _ => true
  | ofBytes _ _ => false

/-- `value.to_string_lossy()`. -/
def lossy : OsString → String
  | ofText text => text
  | ofBytes bytes _ => String.ofList (Text.decodeUtf8Lossy bytes)

/-- `value.to_str()`. -/
def toStr : OsString → Option String
  | ofText text => some text
  | ofBytes _ _ => none

instance : Coe String OsString := ⟨ofText⟩

end OsString

/-- A `PathBuf`. -/
abbrev Path := OsString

/-- `path.display()`. -/
def Path.display (path : Path) : String := path.lossy

/-- `ByteSource`. `readAt offset out` returns the count and the buffer afterwards;
after an error every caller gives the buffer up. -/
structure ByteSource (σ : Type) where
  len : Nat
  asSlice : Option Slice
  readAt : Nat → List UInt8 → Exec σ IoError (Nat × List UInt8)
  len_le : len ≤ usizeMax

section Source

variable {σ : Type}

/-- The fill loops of `find_pattern_from`, of the tail read in
`plan_partition_boundaries` and of `fill_from`: fill `buffer[filled..stop]` from
`offset + filled` on, until it is full or the source is exhausted. -/
def fillWindow (source : ByteSource σ) (offset stop filled : Nat) (buffer : Slice) :
    Exec σ IoError (Nat × Slice) := do
  if filled < stop then
    let out ← orPanic (buffer.range filled stop)
    let (read, written) ← source.readAt (offset + filled) out.bytes
    let buffer := buffer.write filled written
    if read = 0 then return (filled, buffer)
    fillWindow source offset stop (filled + read) buffer
  else return (filled, buffer)
termination_by stop - filled

end Source

/-! ### What the trait promises -/

/-- A successful read at `offset` of the file: it fits the buffer and the file, is
correct, and is empty only past the end or for an empty buffer. -/
structure ReadOk (file : List UInt8) (offset : Nat) (out : List UInt8) (count : Nat)
    (written : List UInt8) : Prop where
  length_eq : written.length = out.length
  count_le : count ≤ out.length
  progress : offset < file.length → out ≠ [] → 1 ≤ count
  count_le_rest : count ≤ file.length - offset
  correct : written.take count = (file.drop offset).take count

/-- The source reads `file` and exposes no slice, in every state of `inv`; no read
leaves `inv`. -/
structure Conforms {σ : Type} (source : ByteSource σ) (inv : σ → Prop) (file : List UInt8) :
    Prop where
  len_eq : source.len = file.length
  no_slice : source.asSlice = none
  reads : ∀ offset out s, inv s → Returns (source.readAt offset out) s fun p s' =>
    inv s' ∧ ReadOk file offset out p.1 p.2

/-- As `Conforms`, but a read may also end in an error, in `failed`. -/
structure ConformsOrFails {σ : Type} (source : ByteSource σ) (inv : σ → Prop)
    (failed : IoError → σ → Prop) (file : List UInt8) : Prop where
  len_eq : source.len = file.length
  no_slice : source.asSlice = none
  reads : ∀ offset out s, inv s → Ensures (source.readAt offset out) s
    (Outcome (fun p s' => inv s' ∧ ReadOk file offset out p.1 p.2) failed)

section Promises

variable {σ : Type} {source : ByteSource σ} {inv : σ → Prop} {failed failed' : IoError → σ → Prop}
  {file : List UInt8}

theorem Conforms.orFails (conforms : Conforms source inv file) :
    ConformsOrFails source inv (fun _ _ => False) file where
  len_eq := conforms.len_eq
  no_slice := conforms.no_slice
  reads offset out s good := (conforms.reads offset out s good).outcome

theorem ConformsOrFails.orElse (conforms : ConformsOrFails source inv failed file)
    (weaken : ∀ e s, failed e s → failed' e s) : ConformsOrFails source inv failed' file where
  len_eq := conforms.len_eq
  no_slice := conforms.no_slice
  reads offset out s good := (conforms.reads offset out s good).orElse weaken

theorem ConformsOrFails.conforms (conforms : ConformsOrFails source inv (fun _ _ => False) file) :
    Conforms source inv file where
  len_eq := conforms.len_eq
  no_slice := conforms.no_slice
  reads offset out s good := (conforms.reads offset out s good).returns

end Promises

/-- The buffer holds `count` bytes of the file from `offset` on. -/
structure Holds (file : List UInt8) (offset count : Nat) (buffer : Slice) : Prop where
  count_le : count ≤ buffer.len
  bytes_eq : buffer.bytes.take count = (file.drop offset).take count

section Fill

variable {σ : Type} {source : ByteSource σ} {inv : σ → Prop} {failed : IoError → σ → Prop}
  {file : List UInt8} {offset stop filled : Nat} {buffer : Slice} {s : σ}

theorem holds_zero (file : List UInt8) (offset : Nat) (buffer : Slice) :
    Holds file offset 0 buffer :=
  ⟨Nat.zero_le _, by simp⟩

/-- The part of the buffer that is filled. -/
theorem Holds.bytes_window (holds : Holds file offset filled buffer) :
    (buffer.window 0 filled).bytes = (file.drop offset).take filled := by
  rw [Slice.bytes_window, List.drop_zero, holds.bytes_eq]

/-- One read extends what the buffer holds. -/
theorem Holds.write (holds : Holds file offset filled buffer) {out written : List UInt8}
    {count : Nat} (room : filled + out.length ≤ buffer.len)
    (ok : ReadOk file (offset + filled) out count written) :
    Holds file offset (filled + count) (buffer.write filled written) := by
  have room' : filled + written.length ≤ buffer.len := by rwa [ok.length_eq]
  constructor
  · rw [Slice.len_write room']
    exact (Nat.add_le_add_left ok.count_le filled).trans room
  · rw [Slice.take_write room' (ok.length_eq ▸ ok.count_le), holds.bytes_eq, ok.correct,
      List.take_add, List.drop_drop]

/-- A fill loop fills its window whenever the file has that many bytes, or a read
fails. -/
theorem fillWindow_outcome (conforms : ConformsOrFails source inv failed file) (le : filled ≤ stop)
    (inFile : offset + stop ≤ file.length) (inBuffer : stop ≤ buffer.len)
    (holds : Holds file offset filled buffer) (good : inv s) :
    Ensures (fillWindow source offset stop filled buffer) s
      (Outcome (fun p s' => inv s' ∧ p.1 = stop ∧ p.2.len = buffer.len ∧
        Holds file offset stop p.2) failed) := by
  induction left : stop - filled using Nat.strong_induction_on generalizing filled buffer s with
  | _ left ih =>
      rw [fillWindow]
      by_cases more : filled < stop
      · have outLen : (buffer.window filled (stop - filled)).len = stop - filled :=
          Slice.len_window (by omega)
        rw [if_pos more, Slice.range_eq le inBuffer, orPanic_some, pure_bind]
        refine (conforms.reads _ _ s good).andThen fun p s' read => ?_
        obtain ⟨count, written⟩ := p
        obtain ⟨good', ok⟩ := read
        have nonempty : (buffer.window filled (stop - filled)).bytes ≠ [] :=
          List.ne_nil_of_length_pos (by
            unfold Slice.len at outLen
            omega)
        have pos := ok.progress (by omega) nonempty
        have countLe : count ≤ stop - filled := ok.count_le.trans outLen.le
        have room : filled + (buffer.window filled (stop - filled)).bytes.length ≤ buffer.len := by
          unfold Slice.len at outLen inBuffer ⊢
          omega
        have len : (buffer.write filled written).len = buffer.len :=
          Slice.len_write (by rwa [ok.length_eq])
        dsimp only
        rw [if_neg (by omega)]
        refine (ih _ (by omega) (by omega) (by rwa [len]) (holds.write room ok) good' rfl).weaken ?_
        rintro p s'' ⟨good'', full, same, holds'⟩
        exact ⟨good'', full, same.trans len, holds'⟩
      · obtain rfl : filled = stop := by omega
        rw [if_neg more]
        exact Ensures.pure ⟨good, rfl, rfl, holds⟩

theorem fillWindow_returns (conforms : Conforms source inv file) (le : filled ≤ stop)
    (inFile : offset + stop ≤ file.length) (inBuffer : stop ≤ buffer.len)
    (holds : Holds file offset filled buffer) (good : inv s) :
    Returns (fillWindow source offset stop filled buffer) s fun p s' =>
      inv s' ∧ p.1 = stop ∧ p.2.len = buffer.len ∧ Holds file offset stop p.2 :=
  (fillWindow_outcome conforms.orFails le inFile inBuffer holds good).returns

end Fill

end Source
