import TypedLambda.Proofs.Lexing.Refinement
import TypedLambda.Proofs.Syntax.Writing

/-!
# Which programs have a text

The programs that are read from files are those that can be written (`Program.Writable`). The tokens
of a file carry what their kinds promise, and a derivation builds a program from what its tokens
carry; the other way round, the text of a program is read back.

* `Grammar.writable_of_derives`: what derivations build from tokens;
* `Program.ofFile_eq_ok_iff`: when a file is read as a program;
* `Program.exists_source_iff_writable`: the programs that have a text.
-/

namespace TypedLambda

open Grammar Text

/-! ## What is read can be written -/

namespace Grammar

theorem isKnown_of_binds {kind : TokenKind} {op : Operator} {level : Nat}
    (h : Binds kind op level) : op.isKnown = true := by
  cases h <;> rfl

/-- **A term is built from what its tokens carry.** -/
theorem writable_of_derives {ph : Phrase} {ts : List Token} {x : Term} (h : Derives ph ts x)
    (hts : ∀ t ∈ ts, t.word.Spelled) : x.Writable := by
  induction h with
  | @number t n hkind hvalue =>
    obtain ⟨_, hdata⟩ := (hts t List.mem_cons_self).number hkind
    exact Numeral.nonneg_of_value? hdata hvalue
  | string | true | false => exact trivial
  | @var t hkind => exact (hts t List.mem_cons_self).name hkind
  | paren _ _ _ ih => exact ih fun t ht => hts t (by simp [ht])
  | single _ ih | operand _ ih | tighter _ ih | chain _ ih => exact ih hts
  | app _ _ _ ih₁ ih₂ =>
    exact ⟨ih₁ fun t ht => hts t (by simp [ht]),
      ih₂ fun t ht => hts t (List.mem_append_right _ ht)⟩
  | operator _ hbinds _ _ ih₁ ih₂ =>
    exact ⟨isKnown_of_binds hbinds, ih₁ fun t ht => hts t (by simp [ht]),
      ih₂ fun t ht => hts t (by simp [ht])⟩
  | @lam _ _ param _ _ _ _ _ _ _ hparam _ _ _ _ ih =>
    exact ⟨(hts param (by simp)).name hparam, ih fun t ht => hts t (by simp [ht])⟩
  | @letIn _ _ name _ _ _ _ _ _ _ hname _ _ _ _ ih₁ ih₂ =>
    exact ⟨(hts name (by simp)).name hname, ih₁ fun t ht => hts t (by simp [ht]),
      ih₂ fun t ht => hts t (by simp [ht])⟩
  | ite _ _ _ _ _ _ ih₁ ih₂ ih₃ =>
    exact ⟨ih₁ fun t ht => hts t (by simp [ht]), ih₂ fun t ht => hts t (by simp [ht]),
      ih₃ fun t ht => hts t (by simp [ht])⟩

theorem writable_of_derivesProgram {ts : List Token} {p : Program} (h : DerivesProgram ts p)
    (hts : ∀ t ∈ ts, t.word.Spelled) : p.Writable := by
  induction h with
  | main hmain => exact ⟨nofun, writable_of_derives hmain hts⟩
  | @define _ name _ _ _ _ _ _ _ _ _ _ hname _ _ _ hbody _ _ ih =>
    obtain ⟨hdefinitions, hmain⟩ := ih fun t ht => hts t (by simp [List.mem_cons.mp ht])
    refine ⟨?_, hmain⟩
    intro d hd
    rcases List.mem_cons.mp hd with rfl | hd
    · exact ⟨(hts name (by simp)).name hname,
        writable_of_derives hbody fun t ht => hts t (by simp [ht])⟩
    · exact hdefinitions d hd

end Grammar

theorem Parsed.program_eq_ok_iff {parsed : Parsed} {file : String} {readerError : Option String}
    {p : Program} :
    parsed.program file readerError = .ok p ↔
      parsed.program file none = .ok p ∧ readerError = none := by
  unfold Parsed.program
  cases parsed.result with
  | error e => simp
  | ok q => cases readerError <;> simp

theorem Program.ofFile_eq_ok_iff {fs : FileSystem} {name : String} {p : Program} :
    (Program.ofFile fs name).result = .ok p ↔
      ∃ file, Source.openNamed fs name = .ok file ∧
        Program.ofTokens name none ((Lexer.ofFile file).tokens.map (·.1)) = .ok p ∧
        ((Lexer.ofFile file).after
          (Program.parse ((Lexer.ofFile file).tokens.map (·.1))).reads).error = none := by
  cases hopen : Source.openNamed fs name with
  | error e => simp [Program.ofFile_of_not_open hopen]
  | ok file =>
    rw [Program.ofFile_of_open hopen, Parsed.program_eq_ok_iff]
    simp [Program.ofTokens]

/-- **What is read from a file can be written.** -/
theorem Program.writable_of_ofFile {fs : FileSystem} {name : String} {p : Program}
    (h : (Program.ofFile fs name).result = .ok p) : p.Writable := by
  obtain ⟨file, _, hparse, _⟩ := Program.ofFile_eq_ok_iff.mp h
  obtain ⟨rest, hread⟩ := Program.ofTokens_eq_ok_iff_programAfter.mp hparse
  obtain ⟨_, _, hprogram⟩ := Parser.bind_eq_ok hread
  obtain ⟨used, q, hts, _, hq, rfl⟩ := Parser.exists_derivesProgram_of_programAfter hprogram
  refine writable_of_derivesProgram hq fun t ht => ?_
  have hmem : t ∈ (Lexer.ofFile file).tokens.map (·.1) := hts ▸ List.mem_append_left rest ht
  obtain ⟨taken, htaken, rfl⟩ := List.mem_map.mp hmem
  exact Lexer.spelled_of_mem_tokens htaken

/-! ## What can be written is read -/

/-- A file system whose only file holds a text. -/
def FileSystem.holding (text : List Char) : FileSystem :=
  .ofEntry "main.story" (.file (Utf8.encode text) none) none

theorem FileSystem.openFile_holding (text : List Char) :
    (holding text).openFile "main.story" = .ok ⟨Utf8.encode text, none, none⟩ := by
  have hpath : isValidPath "main.story" = true := by decide +kernel
  simp [holding, ofEntry, openEntry, hpath]

theorem Source.extensionOf_main : extensionOf "main.story" = extension := by decide +kernel

theorem Source.openNamed_holding (text : List Char) :
    openNamed (.holding text) "main.story" = .ok ⟨Utf8.encode text, none, none⟩ := by
  rw [openNamed, if_pos extensionOf_main, FileSystem.openFile_holding]

namespace Lexer

theorem rest_ofFile_encode (text : List Char) (readError closeError : Option String) :
    (ofFile ⟨Utf8.encode text, readError, closeError⟩).rest = text :=
  (rest_settle _).trans (Utf8.chars_encode text)

theorem pos_ofFile (file : OpenFile) : (ofFile file).pos = .start := pos_settle _

end Lexer

namespace Program

theorem ofFile_spaced {fs : FileSystem} {name : String} {ss : List SpacedWord} {p : Program}
    (hname : Source.extensionOf name = Source.extension)
    (hfile : fs.openFile name = .ok ⟨Utf8.encode (SpacedWord.spell ss), none, none⟩)
    (hss : SpacedWord.Readable ss []) (hp : DerivesProgram (SpacedWord.layOut .start ss) p) :
    (Program.ofFile fs name).result = .ok p := by
  have hopen : Source.openNamed fs name = .ok ⟨Utf8.encode (SpacedWord.spell ss), none, none⟩ := by
    rw [Source.openNamed, if_pos hname, hfile]
  have hhealthy : (Lexer.ofFile ⟨Utf8.encode (SpacedWord.spell ss), none, none⟩).Healthy :=
    Lexer.Healthy.settle ⟨rfl, rfl, rfl⟩
  refine ofFile_eq_ok_iff.mpr
    ⟨_, hopen, ofTokens_spaced (Lexer.rest_ofFile_encode _ _ _) hss ?_,
      Lexer.error_after hhealthy _⟩
  rwa [Lexer.pos_ofFile]

/-- **The text of a program is read as the program**, from any file without an error. -/
theorem ofFile_text {fs : FileSystem} {name : String} {p : Program} (hp : p.Writable)
    (hname : Source.extensionOf name = Source.extension)
    (hfile : fs.openFile name = .ok ⟨Utf8.encode p.text, none, none⟩) :
    (Program.ofFile fs name).result = .ok p :=
  ofFile_spaced hname hfile (readable_spacedWords hp) (derives_layOut hp.1 hp.2 .start)

/-- **The programs that have a text** are those that can be written: under any name of a source
file, there are bytes that are read as the program, whatever file system holds them, exactly if its
names are names, its operators are known, its integers are not negative and it holds no marker of a
built-in function. -/
theorem exists_source_iff_writable {name : String}
    (hname : Source.extensionOf name = Source.extension) (p : Program) :
    (∃ bytes, ∀ fs : FileSystem, fs.openFile name = .ok ⟨bytes, none, none⟩ →
      (Program.ofFile fs name).result = .ok p) ↔ p.Writable := by
  constructor
  · rintro ⟨bytes, h⟩
    have hread := h ⟨fun _ => .ok ⟨bytes, none, none⟩⟩ rfl
    exact writable_of_ofFile hread
  · intro hp
    exact ⟨Utf8.encode p.text, fun fs hfile => ofFile_text hp hname hfile⟩

/-- A function with a Greek name, and a branch that gives bytes that are no text. -/
def greekName : Program :=
  ⟨[⟨"λ_0", .fn .int .bool, .lam "_" .int (.bin .eq (.var "_") (.lit (.int 0)))⟩],
    .ite (.app (.var "λ_0") (.lit (.int 9223372036854775807))) (.lit (.text [0xFF, 0x22]))
      (.letIn "été" (.lit (.text [])) (.var "été"))⟩

theorem exists_source_greekName :
    Source.extensionOf "main.story" = Source.extension ∧ greekName.Writable ∧
      ∃ bytes, ∀ fs : FileSystem, fs.openFile "main.story" = .ok ⟨bytes, none, none⟩ →
        (Program.ofFile fs "main.story").result = .ok greekName := by
  have hname : Source.extensionOf "main.story" = Source.extension := by decide +kernel
  have hfunc : isName "λ_0" = true := by decide +kernel
  have hparam : isName "_" = true := by decide +kernel
  have hlet : isName "été" = true := by decide +kernel
  have hzero : (Literal.int 0).Writable := by
    show (0 : Int) ≤ (0 : Int64).toInt
    decide
  have hlarge : (Literal.int 9223372036854775807).Writable := by
    show (0 : Int) ≤ (9223372036854775807 : Int64).toInt
    decide
  have hwritable : greekName.Writable :=
    ⟨List.forall_mem_singleton.mpr ⟨hfunc, hparam, rfl, hparam, hzero⟩,
      ⟨hfunc, hlarge⟩, trivial, hlet, trivial, hlet⟩
  exact ⟨hname, hwritable, (exists_source_iff_writable hname greekName).mpr hwritable⟩

end Program

end TypedLambda
