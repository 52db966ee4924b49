import TypedLambda.Proofs.Syntax.Image

/-!
# The file behind the tokens

A lexer closes its file on its own when it meets the end, which may be while it looks one character
ahead; whoever stops earlier closes the file then. What a lexer knows of its file depends only on
whether characters are left (`Lexer.Follows`): the file is open and without an error before the end,
and closed, with the error of the reading or else of the closing, from there on. A program is read
only if the tokens are taken up to the end of input, and there the error is known. Hence an opened
file is closed once, and one that fails gives no program (`Program.ofFile_closes_once`).
-/

namespace TypedLambda

namespace Lexer

/-! ## States of the file -/

/-- The lexer reads the file `f`, and its state is the one that goes with the characters left. -/
structure Follows (f : OpenFile) (l : Lexer) : Prop where
  readError : l.readError = f.readError
  closeError : l.closeError = f.closeError
  isOpen : l.isOpen = !l.rest.isEmpty
  closes : l.closes = if l.rest.isEmpty then 1 else 0
  error : l.error = if l.rest.isEmpty then f.readError.or f.closeError else none

variable {f : OpenFile} {l : Lexer}

theorem follows_settle (hread : l.readError = f.readError) (hclose : l.closeError = f.closeError)
    (hopen : l.isOpen = true) (hcloses : l.closes = 0) (herror : l.error = none) :
    l.settle.Follows f := by
  cases hrest : l.rest.isEmpty with
  | true =>
    have hsettle : l.settle =
        { l with isOpen := false, closes := 1, error := f.readError.or f.closeError } := by
      simp [settle, close, hrest, hread, hclose, hopen, hcloses, herror]
    rw [hsettle]
    exact ⟨hread, hclose, by simp [hrest], by simp [hrest], by simp [hrest]⟩
  | false =>
    have hsettle : l.settle = l := by simp [settle, hrest]
    rw [hsettle]
    exact ⟨hread, hclose, by simp [hrest, hopen], by simp [hrest, hcloses],
      by simp [hrest, herror]⟩

theorem follows_ofFile (f : OpenFile) : (ofFile f).Follows f :=
  follows_settle rfl rfl rfl rfl rfl

/-- **One step** keeps the state in line with the characters left. -/
theorem Follows.advance (h : l.Follows f) : l.advance.2.Follows f := by
  unfold Lexer.advance
  split
  · exact h
  · next c cs hrest =>
    have hopen : l.isOpen = true := by rw [h.isOpen, hrest]; rfl
    have hcloses : l.closes = 0 := by rw [h.closes, hrest]; rfl
    have herror : l.error = none := by rw [h.error, hrest]; rfl
    exact follows_settle h.readError h.closeError hopen hcloses herror

theorem Follows.after (h : l.Follows f) (reads : Nat) : (l.after reads).Follows f :=
  after_of_step (fun _ => Follows.advance) h reads

theorem Follows.closes_close (h : l.Follows f) : l.close.2.closes = 1 := by
  have hopen := h.isOpen
  have hcloses := h.closes
  cases hrest : l.rest.isEmpty with
  | true =>
    rw [hrest] at hopen hcloses
    simp [close, hopen, hcloses]
  | false =>
    rw [hrest] at hopen hcloses
    simp [close, hopen, hcloses]

/-! ## The last token -/

theorem Follows.error_after_all (h : l.Follows f) {reads : Nat} (hreads : l.tokens.length ≤ reads) :
    (l.after reads).error = f.readError.or f.closeError := by
  obtain ⟨front, last, heq, _, _, hrest⟩ := tokens_eq_concat l
  have hlast : l.after reads = last.2 := by
    rw [Lexer.after, List.take_of_length_le hreads, heq]
    simp
  have hfollows := h.after reads
  rw [hlast] at hfollows ⊢
  rw [hfollows.error, hrest]
  rfl

end Lexer

/-! ## Programs from files -/

theorem Program.length_le_reads {l : Lexer} {p : Program}
    (h : (Program.parse (l.tokens.map (·.1))).result = .ok p) :
    l.tokens.length ≤ (Program.parse (l.tokens.map (·.1))).reads := by
  unfold Program.parse at h ⊢
  split at h
  · next q rest hread =>
    show l.tokens.length ≤ (l.tokens.map (·.1)).length + 2 - rest.length
    obtain ⟨_, _, hprogram⟩ := Parser.bind_eq_ok hread
    obtain ⟨used, _, hts, heof, _⟩ := Parser.exists_derivesProgram_of_programAfter hprogram
    -- The end of input is the last token, so nothing is left after it.
    have hrest : rest.length ≤ 1 := by
      cases rest with
      | nil => exact Nat.zero_le 1
      | cons t after =>
        obtain ⟨front, last, heq, hfront, _⟩ := l.tokens_eq_concat
        rcases List.eq_nil_or_concat after with rfl | ⟨init, z, rfl⟩
        · exact Nat.le_refl 1
        · have hsplit : (used ++ t :: init) ++ [z] = front.map (·.1) ++ [last.1] := by
            rw [heq] at hts
            simpa using hts.symm
          have hmem : t ∈ front.map (·.1) := by
            rw [← List.append_inj_left' hsplit rfl]
            simp
          obtain ⟨q, hq, rfl⟩ := List.mem_map.mp hmem
          exact absurd heof (hfront q hq)
    rw [List.length_map]
    omega
  · cases h

section

variable {fs : FileSystem} {name : String} {file : OpenFile}
  (hopen : Source.openNamed fs name = .ok file)

include hopen

theorem Program.closes_ofFile : (Program.ofFile fs name).closes = 1 := by
  rw [Program.ofFile_of_open hopen]
  exact ((Lexer.follows_ofFile file).after _).closes_close

theorem Program.result_ofFile_of_ok {p : Program}
    (h : (Program.parse ((Lexer.ofFile file).tokens.map (·.1))).result = .ok p) :
    (Program.ofFile fs name).result =
      (file.readError.or file.closeError).elim (.ok p) fun e => .error (.failed e) := by
  have herror := (Lexer.follows_ofFile file).error_after_all (Program.length_le_reads h)
  rw [Program.ofFile_of_open hopen]
  simp only [Parsed.program, h, herror]
  cases file.readError.or file.closeError <;> rfl

theorem Program.result_ofFile_of_error {e : SyntaxError}
    (h : (Program.parse ((Lexer.ofFile file).tokens.map (·.1))).result = .error e) :
    ∃ readerError, (Program.ofFile fs name).result = .error (.invalid name e readerError) ∧
      (file.readError.or file.closeError = none → readerError = none) := by
  rw [Program.ofFile_of_open hopen]
  simp only [Parsed.program, h]
  refine ⟨_, rfl, fun hnone => ?_⟩
  have hfollows := (Lexer.follows_ofFile file).after
    (Program.parse ((Lexer.ofFile file).tokens.map (·.1))).reads
  rw [hfollows.error, hnone]
  exact ite_self none

theorem Program.result_ofFile_of_failure {e : String}
    (he : file.readError.or file.closeError = some e) :
    ∃ error, (Program.ofFile fs name).result = .error error ∧
      ∀ p, Program.ofTokens name none ((Lexer.ofFile file).tokens.map (·.1)) = .ok p →
        error = .failed e := by
  cases hparse : (Program.parse ((Lexer.ofFile file).tokens.map (·.1))).result with
  | ok p =>
    refine ⟨.failed e, ?_, fun _ _ => rfl⟩
    rw [Program.result_ofFile_of_ok hopen hparse, he]
    rfl
  | error syntaxError =>
    obtain ⟨readerError, hresult, _⟩ := Program.result_ofFile_of_error hopen hparse
    refine ⟨_, hresult, fun p hp => ?_⟩
    rw [Program.ofTokens, Parsed.program, hparse] at hp
    cases hp

theorem Program.result_ofFile_of_no_failure (hnone : file.readError.or file.closeError = none) :
    (∃ p, (Program.ofFile fs name).result = .ok p) ∨
    ∃ e, (Program.ofFile fs name).result = .error (.invalid name e none) := by
  cases hparse : (Program.parse ((Lexer.ofFile file).tokens.map (·.1))).result with
  | ok p =>
    refine .inl ⟨p, ?_⟩
    rw [Program.result_ofFile_of_ok hopen hparse, hnone]
    rfl
  | error e =>
    obtain ⟨readerError, hresult, hreader⟩ := Program.result_ofFile_of_error hopen hparse
    exact .inr ⟨e, by rw [hresult, hreader hnone]⟩

end

theorem FileSystem.readError_openEntry (name : String) (bytes : List UInt8) (failure : ReadFailure)
    (closeError : Option String) (h : failure.after ≤ bytes.length) :
    (openEntry name closeError (.file bytes (some failure))).readError = some failure.error := by
  rw [openEntry, if_pos h]

theorem FileSystem.closeError_openEntry (name : String) (closeError : Option String)
    (entry : Entry) : (openEntry name closeError entry).closeError = closeError := by
  unfold openEntry
  split
  · rfl
  · split <;> rfl
  · rfl

/-- **No file stays open and none is cut short.** A file that is not opened is not closed. An opened
file is closed exactly once, whatever its tokens are. If reading or closing it fails, there is no
program but an error, which is the file's own if the tokens are a program; this is so in particular
if reading fails after as many bytes as the file has, or after fewer. If neither fails, there is a
program or a syntax error. -/
theorem Program.ofFile_closes_once (fs : FileSystem) (name : String) :
    (∀ e, Source.openNamed fs name = .error e →
      Program.ofFile fs name = ⟨0, .error (.notOpened e)⟩) ∧
    (∀ file, Source.openNamed fs name = .ok file →
      (Program.ofFile fs name).closes = 1 ∧
      (∀ e, file.readError.or file.closeError = some e →
        ∃ error, (Program.ofFile fs name).result = .error error ∧
          ∀ p, Program.ofTokens name none ((Lexer.ofFile file).tokens.map (·.1)) = .ok p →
            error = .failed e) ∧
      (file.readError.or file.closeError = none →
        (∃ p, (Program.ofFile fs name).result = .ok p) ∨
        ∃ e, (Program.ofFile fs name).result = .error (.invalid name e none))) ∧
    ∀ bytes failure closeError, Source.openNamed fs name =
        .ok (FileSystem.openEntry name closeError (.file bytes failure)) →
      (∃ f, failure = some f ∧ f.after ≤ bytes.length) ∨ closeError.isSome →
        ∃ error, (Program.ofFile fs name).result = .error error := by
  refine ⟨fun e he => ?_, fun file hopen => ?_, ?_⟩
  · exact Program.ofFile_of_not_open he
  · exact ⟨Program.closes_ofFile hopen, fun e => Program.result_ofFile_of_failure hopen,
      Program.result_ofFile_of_no_failure hopen⟩
  · intro bytes failure closeError hopen hfail
    have hsome : ((FileSystem.openEntry name closeError (.file bytes failure)).readError.or
        (FileSystem.openEntry name closeError (.file bytes failure)).closeError).isSome := by
      rw [Option.isSome_or, FileSystem.closeError_openEntry, Bool.or_eq_true]
      refine hfail.imp_left ?_
      rintro ⟨f, rfl, hle⟩
      rw [FileSystem.readError_openEntry name bytes f closeError hle]
      rfl
    obtain ⟨e, he⟩ := Option.isSome_iff_exists.mp hsome
    obtain ⟨error, herror, _⟩ := Program.result_ofFile_of_failure hopen he
    exact ⟨error, herror⟩

def Program.one : Program := ⟨[], .lit (.int 1)⟩

/-- A file system whose only file begins with the text of a program. Reading the file fails right
after that text, and so does closing it. -/
def FileSystem.cutShort : FileSystem :=
  .ofEntry "main.story"
    (.file (Text.Utf8.encode Program.one.text ++ [0x2B])
      (some ⟨(Text.Utf8.encode Program.one.text).length, "read failure"⟩))
    (some "close failure")

theorem Program.ofFile_cutShort :
    let file : OpenFile :=
      ⟨Text.Utf8.encode one.text, some "read failure", some "close failure"⟩
    Source.openNamed .cutShort "main.story" = .ok file ∧
    Program.ofTokens "main.story" none ((Lexer.ofFile file).tokens.map (·.1)) = .ok one ∧
    Program.ofFile .cutShort "main.story" = ⟨1, .error (.failed "read failure")⟩ := by
  intro file
  have hopen : Source.openNamed .cutShort "main.story" = .ok file := by
    have hpath : FileSystem.isValidPath "main.story" = true := by decide +kernel
    rw [Source.openNamed, if_pos Source.extensionOf_main]
    simp [FileSystem.cutShort, FileSystem.ofEntry, FileSystem.openEntry, hpath, file]
  have hone : one.Writable := by decide
  have htokens : Program.ofTokens "main.story" none ((Lexer.ofFile file).tokens.map (·.1)) =
      .ok one :=
    ofTokens_text hone (Lexer.rest_ofFile_encode one.text _ _)
  obtain ⟨_, hopened, _⟩ := ofFile_closes_once .cutShort "main.story"
  obtain ⟨hcloses, hfails, _⟩ := hopened file hopen
  obtain ⟨error, herror, hfailed⟩ := hfails "read failure" rfl
  refine ⟨hopen, htokens, ?_⟩
  rw [hfailed one htokens] at herror
  rw [← hcloses, ← herror]

end TypedLambda
