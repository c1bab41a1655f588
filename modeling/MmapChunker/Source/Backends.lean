import MmapChunker.Mmap.Windowed

/-!
The on-demand backends (`src/source.rs`).

`windowedSource` reads through a `WindowedMmapFile`, `preadSource` through positional
reads. Both conform to the trait as long as the operating system serves the file:
it grants the mapping requests, or its positional reads are right, however short.
-/

namespace Source

open Machine Exec Mmap

/-! ### Windowed mapping -/

/-- `WindowedMmapSource`. -/
def windowedSource {ω : Type} (os : Os ω) (file : WindowedMmapFile) : ByteSource (ViewState ω) where
  len := file.size
  asSlice := none
  readAt := file.readAt os
  len_le := file.size_le.trans isizeMax_lt_usizeMax.le

/-- Every request for a part of the file is granted. -/
def Grants {ω : Type} (os : Os ω) (file : WindowedMmapFile) : Prop :=
  ∀ alignedStart mappedLen s, InFile file alignedStart mappedLen →
    ∃ ptr next, os.mmap alignedStart mappedLen s = (.ok ptr, next)

/-- What a window read leaves in the buffer is what the trait asks for. -/
theorem filled_ok {file : WindowedMmapFile} {offset : Nat} {out : List UInt8}
    (something : ¬(out = [] ∨ file.size ≤ offset)) :
    ReadOk file.bytes offset out (count file offset out)
      (filled file offset (count file offset out) out) := by
  have length := length_take_count file offset out
  have inFile : offset < file.size := Nat.not_le.mp fun past => something (.inr past)
  have room : count file offset out ≤ out.length := Nat.min_le_left _ _
  have outPos := List.length_pos_of_ne_nil fun empty => something (.inl empty)
  constructor
  · rw [filled, List.length_append, length, List.length_drop]
    omega
  · exact room
  · intro _ _
    unfold count
    omega
  · exact Nat.min_le_right _ _
  · exact List.take_left' length

/-- A window read that succeeds is right, and one that fails was refused its view. -/
theorem readStep_outcome {ω : Type} {os : Os ω} {file : WindowedMmapFile} {offset : Nat}
    {out : List UInt8} {s s' : ViewState ω} {r : Except IoError (Nat × List UInt8)}
    (read : ReadStep os file offset out s r s') :
    Outcome (fun p _ => ReadOk file.bytes offset out p.1 p.2) (fun _ _ => ¬Grants os file) r
      s' := by
  cases read with
  | idle nothing =>
      have idle : ¬(offset < file.bytes.length ∧ out ≠ []) := fun both =>
        nothing.elim both.2 (Nat.not_le.mpr both.1)
      exact ⟨rfl, Nat.zero_le _, fun lt ne => absurd ⟨lt, ne⟩ idle, Nat.zero_le _, by simp⟩
  | hit something => exact filled_ok something
  | refused something _ answer =>
      have inFile : offset < file.size := Nat.not_le.mp fun past => something (.inr past)
      intro grants
      obtain ⟨ptr, next, granted⟩ := grants _ _ s.os (inFile_view inFile)
      rw [granted] at answer
      cases answer
  | mapped something => exact filled_ok something

/-- The reads of the windowed source that succeed are right. -/
theorem windowed_conformsOrFails {ω : Type} (os : Os ω) (file : WindowedMmapFile) :
    ConformsOrFails (windowedSource os file) (fun s => ∀ view ∈ s.view, view.Within file)
      (fun _ _ => ¬Grants os file) file.bytes where
  len_eq := rfl
  no_slice := rfl
  reads offset out s within := by
    obtain ⟨r, s', stepped, read⟩ := file.readAt_step os within offset out
    have within' := read.within within
    refine ⟨r, s', stepped, ?_⟩
    have outcome := readStep_outcome read
    cases r with
    | error e => exact outcome
    | ok p => exact ⟨within', outcome⟩

/-- While the system grants the mapping requests, the windowed source conforms. -/
theorem windowed_conforms {ω : Type} {os : Os ω} {file : WindowedMmapFile}
    (grants : Grants os file) :
    Conforms (windowedSource os file) (fun s => ∀ view ∈ s.view, view.Within file) file.bytes :=
  ((windowed_conformsOrFails os file).orElse fun _ _ refuses => refuses grants).conforms

/-! ### Positional reads -/

/-- `PreadSource`: an open file and its length. `pread` is `read_exact_at`. -/
structure PreadFile (ω : Type) where
  len : Nat
  pread : Nat → List UInt8 → ω → Except IoError (Nat × List UInt8) × ω
  len_le : len ≤ usizeMax

section Pread

variable {ω : Type}

/-- The loop of `PreadSource::read_at`, from `total` bytes on. -/
def preadLoop (file : PreadFile ω) (offset n total : Nat) (out : List UInt8) :
    Exec ω IoError (Nat × List UInt8) := do
  if total < n then
    let (read, part) ← step (file.pread (offset + total) ((out.take n).drop total))
    let out := out.take total ++ part ++ out.drop n
    if read = 0 then return (total, out)
    preadLoop file offset n (total + read) out
  else return (total, out)
termination_by n - total

/-- `PreadSource`, with its `read_at`. -/
def preadSource (file : PreadFile ω) : ByteSource ω where
  len := file.len
  asSlice := none
  readAt offset out :=
    if out = [] ∨ file.len ≤ offset then return (0, out)
    else preadLoop file offset (min out.length (file.len - offset)) 0 out
  len_le := file.len_le

/-- The open file holds `bytes`: every positional read succeeds, with as many of the
bytes as the system likes to hand over at once. -/
structure Preads (file : PreadFile ω) (bytes : List UInt8) : Prop where
  len_eq : file.len = bytes.length
  reads : ∀ offset out s, ∃ count written s',
    file.pread offset out s = (.ok (count, written), s') ∧ ReadOk bytes offset out count written

/-- The open file holds `bytes`, and a positional read that succeeds is right. -/
structure PreadsOrFails (file : PreadFile ω) (bytes : List UInt8)
    (failed : IoError → ω → Prop) : Prop where
  len_eq : file.len = bytes.length
  reads : ∀ offset out s, Ensures (step (file.pread offset out)) s
    (Outcome (fun p _ => ReadOk bytes offset out p.1 p.2) failed)

variable {file : PreadFile ω} {failed : IoError → ω → Prop} {bytes out : List UInt8}
  {offset n total : Nat}

theorem Preads.orFails (preads : Preads file bytes) :
    PreadsOrFails file bytes (fun _ _ => False) where
  len_eq := preads.len_eq
  reads offset out s := by
    obtain ⟨count, written, s', run, ok⟩ := preads.reads offset out s
    exact ⟨.ok (count, written), s', congrArg some run, ok⟩

/-- One positional read extends the bytes of the file in the buffer. -/
theorem take_part {part : List UInt8} {count : Nat} (le : total ≤ n) (room : n ≤ out.length)
    (ok : ReadOk bytes (offset + total) ((out.take n).drop total) count part)
    (done : out.take total = (bytes.drop offset).take total) :
    (out.take total ++ part ++ out.drop n).length = out.length ∧ total + count ≤ n ∧
      (out.take total ++ part ++ out.drop n).take (total + count) =
        (bytes.drop offset).take (total + count) := by
  have partLen : part.length = n - total := by
    rw [ok.length_eq, List.length_drop, List.length_take, Nat.min_eq_left room]
  have countLe : count ≤ part.length := ok.length_eq ▸ ok.count_le
  have front : (out.take total).length = total := by
    rw [List.length_take]
    omega
  refine ⟨?_, by omega, ?_⟩
  · rw [List.length_append, List.length_append, front, partLen, List.length_drop]
    omega
  · rw [List.append_assoc, List.take_append, front, Nat.add_sub_cancel_left,
      List.take_append_of_le_length countLe, ok.correct, List.take_of_length_le (by omega), done,
      List.take_add, List.drop_drop]

/-- The loop reads all it is after, whatever the short reads are, unless a read fails. -/
theorem preadLoop_outcome (preads : PreadsOrFails file bytes failed)
    (inFile : offset + n ≤ bytes.length) (le : total ≤ n) (room : n ≤ out.length)
    (done : out.take total = (bytes.drop offset).take total) (s : ω) :
    Ensures (preadLoop file offset n total out) s (Outcome (fun p _ =>
      p.1 = n ∧ p.2.length = out.length ∧ p.2.take n = (bytes.drop offset).take n) failed) := by
  induction left : n - total using Nat.strong_induction_on generalizing total out s with
  | _ left ih =>
      rw [preadLoop]
      by_cases more : total < n
      · rw [if_pos more]
        refine (preads.reads (offset + total) ((out.take n).drop total) s).andThen ?_
        rintro ⟨count, part⟩ s' ok
        have nonempty : (out.take n).drop total ≠ [] := List.ne_nil_of_length_pos (by
          rw [List.length_drop, List.length_take]
          omega)
        have pos := ok.progress (by omega) nonempty
        obtain ⟨sameLen, le', done'⟩ := take_part le room ok done
        dsimp only at pos ⊢
        rw [if_neg (by omega)]
        refine (ih _ (by omega) le' (by omega) done' _ rfl).weaken ?_
        rintro p _ ⟨full, same, holds⟩
        exact ⟨full, same.trans sameLen, holds⟩
      · obtain rfl : total = n := by omega
        rw [if_neg more]
        exact Ensures.pure ⟨rfl, rfl, done⟩

/-- The reads of the pread source that succeed are right. -/
theorem pread_conformsOrFails (preads : PreadsOrFails file bytes failed) :
    ConformsOrFails (preadSource file) (fun _ => True) failed bytes where
  len_eq := preads.len_eq
  no_slice := rfl
  reads offset out s _ := by
    have lenEq := preads.len_eq
    rw [preadSource]
    dsimp only
    by_cases nothing : out = [] ∨ file.len ≤ offset
    · rw [if_pos nothing]
      have idle : ¬(offset < bytes.length ∧ out ≠ []) := fun both =>
        nothing.elim both.2 (Nat.not_le.mpr (lenEq ▸ both.1))
      exact Ensures.pure ⟨trivial, rfl, Nat.zero_le _, fun lt ne => absurd ⟨lt, ne⟩ idle,
        Nat.zero_le _, by simp⟩
    · have inFile : offset < file.len := Nat.not_le.mp fun past => nothing (.inr past)
      have outPos := List.length_pos_of_ne_nil fun empty => nothing (.inl empty)
      have start : out.take 0 = (bytes.drop offset).take 0 := rfl
      rw [if_neg nothing]
      refine (preadLoop_outcome preads (by omega) (Nat.zero_le _) (Nat.min_le_left _ _) start
        s).weaken ?_
      rintro ⟨count, written⟩ _ ⟨rfl, sameLen, correct⟩
      exact ⟨trivial, sameLen, Nat.min_le_left _ _, fun _ _ => (by dsimp only; omega),
        lenEq ▸ Nat.min_le_right _ _, correct⟩

/-- While the system reads the file right, the pread source conforms. -/
theorem pread_conforms (preads : Preads file bytes) :
    Conforms (preadSource file) (fun _ => True) bytes :=
  (pread_conformsOrFails preads.orFails).conforms

end Pread

end Source
