import ScriptSyntax.Proofs.SourceLines
import ScriptSyntax.Proofs.SourceNames

/-!
What a fault tells of its input. There are two kinds of faults: at a significant token, whose
place and text they repeat, and at the end, where the last lexeme stops. Neither takes a place
that is not in the lexemes. In a source that was scanned the last lexeme stops behind the last
byte, where there is no line, and a token stands on a line. So a diagnostic shows a line of
the source unless the end came too early.
-/

namespace ScriptSyntax

/-- What a cause says was found. -/
def Cause.found? : Cause → Option String
  | .unexpectedToken _ found | .unexpectedValue _ found | .unknownToken found => some found
  | .unexpectedEof => none

namespace Cause.Names

variable {cause : Cause} {token : Token}

theorem ne_eof (h : cause.Names token) : cause ≠ .unexpectedEof := by
  rintro rfl
  exact h

theorem found_eq (h : cause.Names token) : cause.found? = some token.value := by
  cases cause with
  | unexpectedToken | unknownToken => exact congrArg some h
  | unexpectedValue => exact congrArg some h.1
  | unexpectedEof => exact h.elim

theorem expected_ne (h : cause.Names token) {expected found : String}
    (hcause : cause = .unexpectedValue expected found) : expected ≠ found := by
  subst hcause
  exact h.2

end Cause.Names

/-- The kinds of faults that a parse of these lexemes can have. -/
inductive Fault.Reports (ls : List Lexeme) : Fault → Prop where
  | atEnd {last : Lexeme} (hlast : ls.getLast? = some last) : Reports ls (.atEnd last.span.stop)
  | token {cause : Cause} {token : Token} (hmem : token ∈ significantTokens ls)
      (hcause : cause.Names token) : Reports ls (.raise cause (some token))

theorem parse_eq_error_iff_parsePartial {ls : List Lexeme} {fault : Fault} :
    parse ls = .error fault ↔ (parsePartial ls).2 = some fault := by
  rw [parse]
  split <;> simp_all

theorem parse_nil : parse [] = .ok ⟨.body, []⟩ := by rfl

/-- Each fault of a parse is of one of these kinds. -/
theorem reports_of_parse {ls : List Lexeme} {fault : Fault} (h : parse ls = .error fault) :
    fault.Reports ls := by
  cases Production.program_faithful (parse_eq_error_iff.mp h) with
  | token hcause => exact .token (fault_at_token h rfl).1 hcause
  | atEnd =>
      cases hlast : ls.getLast? with
      | none =>
          rw [List.getLast?_eq_none_iff.mp hlast, parse_nil] at h
          cases h
      | some last =>
          have heof : (Cursor.ofLexemes ls).eof = last.span.stop := by
            rw [Cursor.ofLexemes, hlast]
            rfl
          rw [heof]
          exact .atEnd hlast

namespace Fault.Reports

variable {ls : List Lexeme} {fault : Fault}

theorem token_eq_none_iff (h : fault.Reports ls) :
    fault.token = none ↔ fault.cause = .unexpectedEof := by
  cases h with
  | atEnd => exact iff_of_true rfl rfl
  | token _ hcause => exact iff_of_false nofun hcause.ne_eof

theorem exists_last (h : fault.Reports ls) (heof : fault.cause = .unexpectedEof) :
    ∃ last, ls.getLast? = some last ∧ fault.position = last.span.stop := by
  cases h with
  | atEnd hlast => exact ⟨_, hlast, rfl⟩
  | token _ hcause => exact absurd heof hcause.ne_eof

theorem exists_token (h : fault.Reports ls) (hnot : fault.cause ≠ .unexpectedEof) :
    ∃ t ∈ significantTokens ls, fault.token = some t ∧ fault.position = t.span.start ∧
      fault.cause.found? = some t.value := by
  cases h with
  | atEnd => exact absurd rfl hnot
  | token hmem hcause => exact ⟨_, hmem, rfl, rfl, hcause.found_eq⟩

theorem expected_ne (h : fault.Reports ls) {expected found : String}
    (hcause : fault.cause = .unexpectedValue expected found) : expected ≠ found := by
  cases h with
  | atEnd => cases hcause
  | token _ hnames => exact hnames.expected_ne hcause

/-- The place of a fault is that of a lexeme. -/
theorem position_mem (h : fault.Reports ls) :
    ∃ lexeme ∈ ls, fault.position = lexeme.span.start ∨ fault.position = lexeme.span.stop := by
  cases h with
  | atEnd hlast => exact ⟨_, List.mem_of_getLast? hlast, .inr rfl⟩
  | token hmem => exact ⟨_, mem_of_mem_significantTokens hmem, .inl rfl⟩

end Fault.Reports

section Scanned

variable {source : String} {file : Option String} {fault : Fault}

theorem stop_of_scan {last : Lexeme} (hshort : source.utf8ByteSize < UInt32.size)
    (h : (scan source file).getLast? = some last) :
    last.span.stop.offset.toNat = source.utf8ByteSize := by
  obtain ⟨front, hscan⟩ := List.getLast?_eq_some_iff.mp h
  have hall := bytesOfAll_scan source file
  rw [hscan, Lexeme.bytesOfAll_append, Lexeme.bytesOfAll_cons, Lexeme.bytesOfAll_nil] at hall
  rw [(offsets_of_scan hshort hscan).2, ← hall, Nat.add_zero]

theorem file_of_error (h : parse (scan source file) = .error fault) :
    fault.position.file = file.getD defaultFile :=
  file_of_fault source file (parse_eq_error_iff_parsePartial.mp h)

theorem offset_of_eof (h : parse (scan source file) = .error fault)
    (hshort : source.utf8ByteSize < UInt32.size) (heof : fault.cause = .unexpectedEof) :
    fault.position.offset.toNat = source.utf8ByteSize := by
  obtain ⟨last, hlast, hposition⟩ := (reports_of_parse h).exists_last heof
  rw [hposition, stop_of_scan hshort hlast]

/-- Only in a source of that name can a fault be at the null place. -/
theorem file_of_null (h : parse (scan source file) = .error fault)
    (hnull : fault.position = .null) : file = some "<null>" := by
  have hfile := file_of_error h
  rw [hnull] at hfile
  cases file with
  | none => exact absurd hfile (by decide)
  | some name => exact congrArg some hfile.symm

/-- Nothing is shown for a fault behind the last byte. -/
theorem Fault.diagnostic_at_end (hpast : source.utf8ByteSize ≤ fault.position.offset.toNat) :
    fault.diagnostic source =
      "Error: " ++ fault.name ++ " (" ++ fault.tip.text ++ ")\n" ++
        "-> " ++ fault.position.file ++ "\n" := by
  rw [Fault.diagnostic, Fault.headline_eq, SourceLine.at?_eq_none_iff.mpr hpast]
  exact String.append_empty

end Scanned

end ScriptSyntax
