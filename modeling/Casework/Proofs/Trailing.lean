import Casework.Proofs.Body
import Casework.Proofs.Precedence
import Casework.Proofs.Remainder

/-!
# What a program leaves over

A list of statements goes on until nothing is left or a closing brace stands next, and
at the top level no brace is open.  So what a program leaves over begins with a brace
too many, and the layout and the comments before it are read.

Two classes of blanks meet here: a gap passes over the four blanks of the layout alone,
and what is left over may be any white space.  They cannot come apart.  White space of
another kind begins no statement, so reading fails there, and it is never left over.

## Main results

* `Reader.program_rest` — a program ends at the end of the text or before a closing brace.
* `Program.parse_eq_ok_iff` — a text is a program exactly when all of it is read.
* `Program.program_of_trailing` — a text that goes on behind a program goes on with a
  closing brace.
* `Program.parse_leaves_brace` — **only a closing brace is ever left over**.
-/

namespace Casework

/-- A program ends at the end of the text or before a closing brace, whatever the bound. -/
theorem Reader.program_rest {fuel : Nat} {s r : List Char} {p : Program}
    (h : Reader.program fuel s = .ok p r) : r = [] ∨ ∃ behind, r = '\x7d' :: behind := by
  rw [Reader.program] at h
  obtain ⟨tag, t, -, hlist⟩ := Reader.exists_of_bind_eq_ok h
  obtain ⟨stmts, u, hread, hpure⟩ := Reader.exists_of_bind_eq_ok hlist
  cases hpure
  exact Reader.statements_brace_rest hread

/-- Of all reasons only one has this wording. -/
theorem Reason.message_eq_trailing_iff {reason : Reason} :
    reason.message = "unexpected trailing input" ↔ reason = .trailing := by
  constructor
  · intro h
    cases reason with
    | trailing => rfl
    | invalid => exact absurd h (by decide)
    | expected what => cases what <;> exact absurd h (by decide)
  · rintro rfl
    rfl

/-- The byte behind a text is that of the brace which stands there. -/
theorem getElem?_toByteArray_brace (read behind : String) :
    (read ++ "\x7d" ++ behind).toByteArray[read.utf8ByteSize]? = some 0x7d := by
  have hread : read.utf8ByteSize < (read ++ "\x7d").toByteArray.size := by
    rw [String.size_toByteArray, String.utf8ByteSize_append]
    exact Nat.lt_add_of_pos_right (by decide)
  have hsize : read.utf8ByteSize < ((read ++ "\x7d").toByteArray ++ behind.toByteArray).size := by
    rw [ByteArray.size_append]
    exact Nat.lt_add_right _ hread
  rw [String.toByteArray_append, getElem?_pos _ read.utf8ByteSize hsize,
    ByteArray.getElem_append_left hread]
  simp only [String.toByteArray_append]
  rw [ByteArray.getElem_append_right (by rw [String.size_toByteArray])]
  simp only [String.size_toByteArray, Nat.sub_self]
  rfl

namespace Program

variable {source : String}

/-- **A text is a program exactly when all of it is read**: nothing that is left over is
passed over as white space. -/
theorem parse_eq_ok_iff {p : Program} : Program.parse source = .ok p ↔
    Reader.program (source.toList.length + 1) source.toList = .ok p [] := by
  constructor
  · intro h
    obtain ⟨rest, hread, hwhite⟩ := exists_program_of_parse h
    rcases Reader.program_rest hread with rfl | ⟨behind, rfl⟩
    · exact hread
    · -- a brace is no white space
      cases hwhite
  · intro hread
    unfold Program.parse
    simp only [hread, List.all_nil, if_true]

/-- A text that goes on behind a program goes on with a closing brace, and is reported
there. -/
theorem program_of_trailing {f : Fault} (h : Program.parse source = .error f)
    (hreason : f.reason = .trailing) : ∃ p read behind,
      Reader.program (source.toList.length + 1) source.toList = .ok p ('\x7d' :: behind) ∧
        source.toList = read ++ '\x7d' :: behind ∧ f.position.offset = byteSize read := by
  have hsuffix := Reader.leavesSuffix_program (source.toList.length + 1) source.toList
  unfold Program.parse at h
  cases hread : Reader.program (source.toList.length + 1) source.toList with
  | ok p rest =>
    rw [hread] at hsuffix
    simp only [hread] at h
    rcases Reader.program_rest hread with rfl | ⟨behind, rfl⟩
    · cases h
    · obtain ⟨read, hsource⟩ := hsuffix
      rw [if_neg (by rintro ⟨⟩)] at h
      cases h
      refine ⟨p, read, behind, rfl, hsource.symm, ?_⟩
      rw [← hsource]
      exact Fault.offset_leftOver (leadingWhiteSpace_cons (by decide) behind) read
  | miss rest =>
    -- a reader that fails asks for something or finds nothing that fits
    simp only [hread] at h
    cases h
    cases hreason
  | halt expected rest =>
    simp only [hread] at h
    cases h
    cases expected <;> cases hreason

/-- **Only a closing brace is ever left over.**  Whatever the bound, a program ends at the
end of the text or before a closing brace.  A text that is refused because it goes on has
the byte of a closing brace at the offset of the fault, and there its program ends.  A text
is accepted exactly when its program takes up all of it. -/
theorem parse_leaves_brace (source : String) :
    (∀ fuel p rest, Reader.program fuel source.toList = .ok p rest →
      rest = [] ∨ ∃ behind, rest = '\x7d' :: behind) ∧
    (∀ f, Program.parse source = .error f → f.reason.message = "unexpected trailing input" →
      source.toByteArray[f.position.offset]? = some 0x7d ∧
        ∃ p read behind, source = read ++ "\x7d" ++ behind ∧
          read.utf8ByteSize = f.position.offset ∧
          Reader.program (source.toList.length + 1) source.toList =
            .ok p ('\x7d' :: behind.toList)) ∧
    ∀ p, Program.parse source = .ok p ↔
      Reader.program (source.toList.length + 1) source.toList = .ok p [] := by
  refine ⟨fun fuel p rest => Reader.program_rest, ?_, fun p => parse_eq_ok_iff⟩
  intro f hfault hmessage
  obtain ⟨p, read, behind, hread, hsource, hoffset⟩ :=
    program_of_trailing hfault (Reason.message_eq_trailing_iff.mp hmessage)
  have htext : source = String.ofList read ++ "\x7d" ++ String.ofList behind := by
    rw [← String.ofList_toList (s := source), hsource, List.append_cons, String.ofList_append,
      String.ofList_append]
  have hsize : (String.ofList read).utf8ByteSize = f.position.offset := by
    rw [utf8ByteSize_ofList, hoffset]
  refine ⟨?_, p, String.ofList read, String.ofList behind, htext, hsize, ?_⟩
  · rw [htext, ← hsize]
    exact getElem?_toByteArray_brace _ _
  · rw [String.toList_ofList]
    exact hread

/-- A brace too many behind layout and a comment with another one, before white space that is
no layout: it is reported at its own byte.  Where only such white space is left, nothing is
left over: the text is refused as it stands. -/
theorem parse_leaves_brace_behind_comment :
    let source := "echo 'é'; /* \x7d */\n\t\x7d\u00a0"
    let f : Fault := ⟨.trailing, ⟨20, 2, 2⟩⟩
    Program.parse source = .error f ∧ source.toByteArray[20]? = some 0x7d ∧
      Program.parse "echo 'é';\u00a0" = .error ⟨.invalid, ⟨10, 1, 10⟩⟩ := by
  intro source f
  have hfault : Program.parse source = .error f := by decide +kernel
  exact ⟨hfault, ((parse_leaves_brace source).2.1 f hfault rfl).1, by decide +kernel⟩

end Program

end Casework
