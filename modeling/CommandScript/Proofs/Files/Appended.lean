import CommandScript.Proofs.Files.Changes
import CommandScript.Proofs.Files.Requests
import CommandScript.Proofs.Text.Lines

/-!
# Appended lines

What is written waits at the handle or stands behind what the file held, and what waits goes behind that
(`Handle.Behind`). So when the file is closed, its text is its old text and the lines that were written, each
with its line feed (`run_writeAll`), and the lines that are read are those of that text.
-/

namespace CommandScript.Files

open Text (written readBack Finished)

/-! ### Bytes behind bytes -/

theorem overwritten_size (old new : ByteArray) : overwritten old new old.size = old ++ new := by
  have hgap : ByteArray.mk (Array.replicate (old.size - old.size) 0) = ByteArray.empty := by
    rw [Nat.sub_self]
    rfl
  have hrest : old.extract (old.size + new.size) old.size = ByteArray.empty := by
    rw [← ByteArray.size_eq_zero_iff, ByteArray.size_extract]
    omega
  unfold overwritten
  dsimp only
  rw [hgap, ByteArray.append_empty, ByteArray.extract_zero_size, hrest, ByteArray.append_empty]

namespace Handle

/-- Such a handle writes on where the file ends. -/
def AtEnd (h : Handle) (t : Tree) : Prop :=
  h.offset = none ∨ h.offset = some (t.bytesOf h.id).size

/-- The file has the bytes, when those that wait are counted in, and it takes more behind them. -/
structure Behind (h : Handle) (t : Tree) (bytes : ByteArray) : Prop where
  takes : h.full = false
  atEnd : h.AtEnd t
  bytes_eq : t.bytesOf h.id ++ h.pending = bytes

variable {h : Handle} {t : Tree} {bytes : ByteArray}

/-- Bytes that are put to the file stand behind those that it had. -/
theorem exists_put (htakes : h.full = false) (hend : h.AtEnd t) (more : ByteArray) :
    ∃ h' t', h.put more t = .ok (h', t') ∧ h'.full = false ∧ h'.AtEnd t' ∧ h'.pending = h.pending ∧
      t'.bytesOf h'.id = t.bytesOf h.id ++ more := by
  unfold put
  dsimp only
  by_cases hempty : more.isEmpty = true
  · have hnothing : more = ByteArray.empty := ByteArray.size_eq_zero_iff.mp (beq_iff_eq.mp hempty)
    rw [if_pos hempty, hnothing, ByteArray.append_empty]
    exact ⟨h, t, rfl, htakes, hend, rfl, rfl⟩
  rw [if_neg hempty, htakes, if_neg Bool.false_ne_true]
  obtain hoffset | hoffset := hend
  · rw [hoffset]
    exact ⟨h, _, rfl, htakes, .inl hoffset, rfl, Tree.bytesOf_put _ _ _⟩
  · rw [hoffset]
    dsimp only
    rw [overwritten_size]
    refine ⟨_, _, rfl, rfl, .inr ?_, rfl, Tree.bytesOf_put _ _ _⟩
    dsimp only
    rw [Tree.bytesOf_put, ByteArray.size_append]

namespace Behind

theorem flush (hb : h.Behind t bytes) :
    ∃ h' t', h.flush t = .ok (h', t') ∧ h'.Behind t' bytes ∧ h'.pending = ByteArray.empty := by
  obtain ⟨h', t', hput, htakes, hend, -, hbytes⟩ := exists_put hb.takes hb.atEnd h.pending
  refine ⟨{ h' with pending := ByteArray.empty }, t', ?_, ⟨htakes, hend, ?_⟩, rfl⟩
  · rw [Handle.flush, hput]
    rfl
  · rw [ByteArray.append_empty, ← hb.bytes_eq]
    exact hbytes

theorem makeRoom (hb : h.Behind t bytes) (size : Nat) :
    ∃ h' t', h.makeRoom size t = .ok (h', t') ∧ h'.Behind t' bytes ∧
      (room ≤ size → h'.pending = ByteArray.empty) := by
  unfold Handle.makeRoom
  split
  · obtain ⟨h', t', hflush, hb', hempty⟩ := hb.flush
    exact ⟨h', t', hflush, hb', fun _ => hempty⟩
  · refine ⟨h, t, rfl, hb, fun hsize => ByteArray.size_eq_zero_iff.mp ?_⟩
    omega

theorem write (hb : h.Behind t bytes) (more : ByteArray) :
    ∃ h' t', h.write more t = .ok (h', t') ∧ h'.Behind t' (bytes ++ more) := by
  obtain ⟨h₁, t₁, hmade, hb₁, hnothing⟩ := hb.makeRoom more.size
  unfold Handle.write
  rw [hmade]
  change ∃ h' t', (if room ≤ more.size then h₁.put more t₁ else _) = _ ∧ _
  split
  · rename_i hsize
    obtain ⟨h', t', hput, htakes, hend, hpending, hbytes⟩ := exists_put hb₁.takes hb₁.atEnd more
    refine ⟨h', t', hput, htakes, hend, ?_⟩
    rw [hpending, hbytes, ← hb₁.bytes_eq, hnothing hsize, ByteArray.append_empty,
      ByteArray.append_empty]
  · refine ⟨_, t₁, rfl, hb₁.takes, hb₁.atEnd, ?_⟩
    rw [← hb₁.bytes_eq, ByteArray.append_assoc]

theorem writeLine (hb : h.Behind t bytes) (text : String) :
    ∃ h' t', h.writeLine text t = (.ok (), h', t') ∧
      h'.Behind t' (bytes ++ (text ++ "\n").toUTF8) := by
  obtain ⟨h₁, t₁, hfirst, hb₁⟩ := hb.write text.toUTF8
  obtain ⟨h₂, t₂, hsecond, hb₂⟩ := hb₁.write "\n".toUTF8
  refine ⟨h₂, t₂, ?_, ?_⟩
  · unfold Handle.writeLine
    rw [hfirst]
    dsimp only
    rw [hsecond]
  · rw [ByteArray.append_assoc] at hb₂
    have hline : text.toUTF8 ++ "\n".toUTF8 = (text ++ "\n").toUTF8 := String.toByteArray_append.symm
    rwa [hline] at hb₂

end Behind

end Handle

namespace Desk

/-- Writes lines to the open file and closes it. -/
def writeAll (texts : List String) : DeskM Unit := do
  texts.forM writeLine
  close

/-- Opens a file for writing and writes lines to it. -/
def appendLines (path : String) (texts : List String) : DeskM Unit := do
  openFile path .write
  writeAll texts

/-- Makes a file and writes lines to it. -/
def createWith (path : String) (texts : List String) : DeskM Unit := do
  create path
  writeAll texts

/-- Opens a file for reading, reads all of its lines and closes it. -/
def readAll (path : String) : DeskM (List String) := do
  openFile path .read
  let lines ← readLines none
  close
  return lines

variable {d : Desk} {path text : String} {place : Place} {id : Nat} {handle : Handle} {texts : List String}

/-- Lines that are written one after the other go behind what the file has. -/
theorem run_writeLines (texts : List String) {bytes : ByteArray} (h : d.opened = some ⟨path, .writing handle⟩)
    (hbehind : handle.Behind d.tree bytes) :
    ∃ handle' tree, (texts.forM writeLine).run d = (.ok (),
        { d with tree, opened := some ⟨path, .writing handle'⟩ }) ∧
      handle'.id = handle.id ∧ d.tree.Extends tree ∧
      handle'.Behind tree (bytes ++ (written texts).toUTF8) := by
  induction texts generalizing d handle bytes with
  | nil =>
    have hnothing : bytes ++ (written []).toUTF8 = bytes := ByteArray.append_empty
    refine ⟨handle, d.tree, ?_, rfl, .refl _, hnothing.symm ▸ hbehind⟩
    rw [← h]
    rfl
  | cons text texts ih =>
    have hsteps : (text :: texts).forM writeLine = (writeLine text >>= fun _ => texts.forM writeLine) := rfl
    have hbytes : bytes ++ (written (text :: texts)).toUTF8 =
        bytes ++ (text ++ "\n").toUTF8 ++ (written texts).toUTF8 := by
      rw [ByteArray.append_assoc]
      exact congrArg _ String.toByteArray_append
    obtain ⟨h₁, t₁, hwrote, hbehind₁⟩ := hbehind.writeLine text
    obtain ⟨hid₁, hextends₁⟩ := Handle.kept_writeLine d.tree text handle
    rw [hwrote] at hid₁ hextends₁
    obtain ⟨h₂, t₂, hrun, hid₂, hextends₂, hbehind₂⟩ :=
      ih (d := { d with tree := t₁, opened := some ⟨path, .writing h₁⟩ }) rfl hbehind₁
    refine ⟨h₂, t₂, ?_, hid₂.trans hid₁, hextends₁.trans hextends₂, hbytes ▸ hbehind₂⟩
    rw [hsteps, run_bind, run_writeLine h, hwrote]
    exact hrun

/-- What was written stands behind what the file held, and the rest of the desk is as it was. -/
theorem run_writeAll (texts : List String) (h : d.opened = some ⟨path, .writing handle⟩)
    (hbehind : handle.Behind d.tree (d.tree.bytesOf handle.id)) :
    ∃ tree, (writeAll texts).run d = (.ok (), { d with opened := none, tree }) ∧ d.tree.Extends tree ∧
      tree.bytesOf handle.id = d.tree.bytesOf handle.id ++ (written texts).toUTF8 := by
  obtain ⟨h₁, t₁, hrun, hid, hextends, hbehind₁⟩ := run_writeLines texts h hbehind
  obtain ⟨h₂, t₂, hflush, hbehind₂, hnothing⟩ := hbehind₁.flush
  obtain ⟨hid₂, hextends₂⟩ := Handle.kept_flush hflush
  refine ⟨t₂, ?_, hextends.trans hextends₂, ?_⟩
  · unfold writeAll
    rw [run_bind, hrun]
    dsimp only
    rw [run_close_of_writing rfl]
    dsimp only
    rw [hflush]
  · rw [← hbehind₂.bytes_eq, hnothing, ByteArray.append_empty, hid₂, hid]

/-- All lines of a file are read, and the desk is as it was. -/
theorem run_readAll (hclosed : d.opened = none)
    (hfile : d.tree.locate (d.resolve path) = .ok (place, .file id))
    (htext : decode? (d.tree.bytesOf id) = some text) :
    (readAll path).run d = (.ok (Text.lines text), d) := by
  unfold readAll
  rw [run_bind, run_openFile_read hclosed hfile, htext]
  dsimp only
  rw [run_bind, run_readLines rfl]
  dsimp only
  rw [run_bind, run_close_of_reading rfl]
  have hall : ((Text.lines text).drop 0).take (Text.lines text).length = Text.lines text := by
    rw [List.drop_zero, List.take_length]
  have hdesk : { d with opened := none } = d := by rw [← hclosed]
  show (Except.ok (((Text.lines text).drop 0).take (Text.lines text).length), { d with opened := none }) = _
  rw [hall, hdesk]

theorem decode?_append {bytes : ByteArray} (h : decode? bytes = some text) (more : String) :
    decode? (bytes ++ more.toUTF8) = some (text ++ more) := by
  rw [decode?_eq_some] at h ⊢
  rw [h]
  exact String.toByteArray_append.symm

/-- The text of the file is its old text and what was written. -/
theorem run_appendLines (hclosed : d.opened = none)
    (hfile : d.tree.locate (d.resolve path) = .ok (place, .file id))
    (htext : decode? (d.tree.bytesOf id) = some text) (texts : List String) :
    ∃ tree, (appendLines path texts).run d = (.ok (), { d with tree }) ∧
      tree.locate (d.resolve path) = .ok (place, .file id) ∧
      decode? (tree.bytesOf id) = some (text ++ written texts) := by
  have hopen := run_openFile_write hclosed hfile
  obtain ⟨tree, hrun, hextends, hbytes⟩ := run_writeAll texts
    (d := { d with opened := some ⟨d.resolve path, .writing { id, offset := none }⟩ }) rfl
    ⟨rfl, .inl rfl, ByteArray.append_empty⟩
  refine ⟨tree, ?_, hextends.locate hfile, hbytes ▸ decode?_append htext _⟩
  rw [appendLines, run_bind, hopen]
  dsimp only
  rw [hrun, ← hclosed]

/-- The text of a file that was made is what was written. -/
theorem run_createWith {made : Tree} (hclosed : d.opened = none)
    (hnew : d.tree.createNew (d.resolve path) = .ok (id, made)) (texts : List String) :
    ∃ tree place, (createWith path texts).run d = (.ok (), { d with tree }) ∧
      tree.locate (d.resolve path) = .ok (place, .file id) ∧
      decode? (tree.bytesOf id) = some (written texts) := by
  obtain ⟨place, hlocate⟩ := Tree.locate_of_createNew hnew
  have hempty := Tree.bytesOf_of_createNew hnew
  have hend : Handle.AtEnd { id, offset := some 0 } made := by
    right
    dsimp only
    rw [hempty]
    rfl
  obtain ⟨tree, hrun, hextends, hbytes⟩ := run_writeAll texts
    (d := { d with tree := made, opened := some ⟨d.resolve path, .writing { id, offset := some 0 }⟩ })
    rfl ⟨rfl, hend, ByteArray.append_empty⟩
  refine ⟨tree, place, ?_, hextends.locate hlocate, ?_⟩
  · rw [createWith, run_bind, run_create hclosed, hnew]
    dsimp only
    rw [hrun, ← hclosed]
  · rw [hbytes, hempty, ByteArray.empty_append]
    exact decode?_eq_some.mpr rfl

/-- Lines that are written behind a finished text are read back behind its own lines, each without the
carriage return that may end it, and those that are written to a new file alone. Behind any other text the
first of them goes on with the last line. -/
theorem appended_of_file (hclosed : d.opened = none) (htexts : ∀ t ∈ texts, '\n' ∉ t.toList) :
    (∀ path place id old, d.tree.locate (d.resolve path) = .ok (place, .file id) →
      decode? (d.tree.bytesOf id) = some old →
      ∃ tree after, let e : Desk := { d with tree }
        (appendLines path texts).run d = (.ok (), e) ∧
        (readAll path).run d = (.ok (Text.lines old), d) ∧ (readAll path).run e = (.ok after, e) ∧
        (lineCount path).run d = (.ok (Text.lines old).length, d) ∧
        (lineCount path).run e = (.ok after.length, e) ∧
        (Finished old.toList → after = Text.lines old ++ texts.map readBack ∧
          after.length = (Text.lines old).length + texts.length ∧
          ((∀ t ∈ texts, t.toList.getLast? ≠ some '\r') → after = Text.lines old ++ texts)) ∧
        (¬ Finished old.toList → ∀ first rest, texts = first :: rest → ∃ before last,
          Text.lines old = before ++ [last] ∧
          after = before ++ readBack (last ++ first) :: rest.map readBack)) ∧
    ∀ path id made, d.tree.createNew (d.resolve path) = .ok (id, made) →
      ∃ tree place, let e : Desk := { d with tree }
        (createWith path texts).run d = (.ok (), e) ∧
        e.tree.locate (e.resolve path) = .ok (place, .file id) ∧
        decode? (e.tree.bytesOf id) = some (written texts) ∧
        (readAll path).run e = (.ok (texts.map readBack), e) ∧
        (lineCount path).run e = (.ok texts.length, e) ∧
        ((∀ t ∈ texts, t.toList.getLast? ≠ some '\r') → texts.map readBack = texts) := by
  have hsame (h : ∀ t ∈ texts, t.toList.getLast? ≠ some '\r') : texts.map readBack = texts :=
    (List.map_congr_left fun t ht => Text.readBack_eq_self (h t ht)).trans (List.map_id texts)
  constructor
  · intro path place id old hfile htext
    obtain ⟨tree, hrun, hlocate, hbytes⟩ := run_appendLines hclosed hfile htext texts
    refine ⟨tree, Text.lines (old ++ written texts), hrun, run_readAll hclosed hfile htext,
      run_readAll (d := { d with tree }) hclosed hlocate hbytes, run_lineCount hfile htext,
      run_lineCount (d := { d with tree }) hlocate hbytes, fun hfinished => ?_, ?_⟩
    · have hlines := Text.lines_append_written hfinished htexts
      refine ⟨hlines, ?_, fun h => ?_⟩
      · rw [hlines, List.length_append, List.length_map]
      · rw [hlines, hsame h]
    · rintro hfinished first rest rfl
      rw [List.forall_mem_cons] at htexts
      exact Text.lines_append_written_cons hfinished htexts.1 htexts.2
  · intro path id made hnew
    obtain ⟨tree, place, hrun, hlocate, hbytes⟩ := run_createWith hclosed hnew texts
    have hlines : Text.lines (written texts) = texts.map readBack := by
      have hnothing : Finished "".toList := .inl rfl
      have hempty := Text.lines_append_written hnothing htexts
      rwa [String.empty_append] at hempty
    refine ⟨tree, place, hrun, hlocate, hbytes, ?_, ?_, hsame⟩
    · rw [run_readAll (d := { d with tree }) hclosed hlocate hbytes, hlines]
    · rw [run_lineCount (d := { d with tree }) hlocate hbytes, hlines, List.length_map]

/-- Behind one finished line two more are written and read back. -/
theorem appended_of_file_oneLine :
    ∃ tree, let e : Desk := { withText "one\n" with tree }
      (appendLines "a.txt" ["two", "three"]).run (withText "one\n") = (.ok (), e) ∧
        (readAll "a.txt").run e = (.ok ["one", "two", "three"], e) := by
  have htexts (t : String) (ht : t ∈ ["two", "three"]) :
      '\n' ∉ t.toList ∧ t.toList.getLast? ≠ some '\r' := by
    simp only [List.mem_cons, List.not_mem_nil, or_false] at ht
    obtain rfl | rfl := ht <;> decide +kernel
  obtain ⟨hfile, -⟩ := appended_of_file (d := withText "one\n") rfl fun t ht => (htexts t ht).1
  obtain ⟨tree, after, hrun, -, hread, -, -, hfinished, -⟩ :=
    hfile "a.txt" ["a.txt"] 0 "one\n" (locate_withText _) (decode?_withText _)
  obtain ⟨-, -, hsame⟩ := hfinished (.inr (by decide +kernel))
  have hlines : Text.lines "one\n" = ["one"] := by decide +kernel
  refine ⟨tree, hrun, ?_⟩
  rw [hread, hsame fun t ht => (htexts t ht).2, hlines]
  rfl

/-- Behind a line without a line feed nothing is read back as a line of its own. -/
theorem joined_of_unfinished :
    ¬ ∀ (d : Desk) (path old : String) (place : Place) (id : Nat) (texts : List String),
      d.opened = none → d.tree.locate (d.resolve path) = .ok (place, .file id) →
      decode? (d.tree.bytesOf id) = some old → (∀ t ∈ texts, '\n' ∉ t.toList) →
      ∃ tree, let e : Desk := { d with tree }
        (appendLines path texts).run d = (.ok (), e) ∧
          (readAll path).run e = (.ok (Text.lines old ++ texts), e) := by
  intro h
  obtain ⟨tree, hrun, hread⟩ := h (withText "one") "a.txt" "one" ["a.txt"] 0 ["two"] rfl (locate_withText _)
    (decode?_withText _) (List.forall_mem_singleton.mpr (by decide +kernel))
  obtain ⟨tree', hrun', hlocate, hbytes⟩ :=
    run_appendLines (d := withText "one") rfl (locate_withText _) (decode?_withText _) ["two"]
  have htree : ({ withText "one" with tree } : Desk) = { withText "one" with tree := tree' } :=
    (Prod.mk.inj (hrun.symm.trans hrun')).2
  have hread' := run_readAll (d := { withText "one" with tree := tree' }) rfl hlocate hbytes
  rw [htree, hread'] at hread
  have hlines := Except.ok.inj (Prod.mk.inj hread).1
  revert hlines
  decide +kernel

end Desk

end CommandScript.Files
