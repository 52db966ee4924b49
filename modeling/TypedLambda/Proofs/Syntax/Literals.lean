import TypedLambda.Proofs.Eval.Builtins
import TypedLambda.Proofs.Lexing.Closing
import TypedLambda.Proofs.Syntax.Blame
import TypedLambda.Proofs.Syntax.Image

/-!
# Sources that are one literal

The sources whose only token is a number are the numerals, and those whose only token is a string
are the string literals (`Lexer.oneToken_iff`). Such a source is a program without definitions: the
literal that it denotes, unless it denotes a number that is too large.

* `Numeral.oneToken_and_ofFile`: the sources that are one number, and what they are read as;
* `Text.Literal.oneToken_and_bytes`: the sources that are one string, and the bytes they have;
* `Value.ofFile_render`: what is shown of a value that is no function is a literal for it.
-/

namespace TypedLambda

open Text

/-! ## Sources of one token -/

theorem SpacedWord.spell_single (w : Word) : spell [⟨[], w⟩] = w.chars := by
  simp [spell, chars]

theorem SpacedWord.readable_single {w : Word} (hw : w.Legible) : Readable [⟨[], w⟩] [] :=
  ⟨List.forall_mem_nil _, hw [] (by rintro _ ⟨⟩), List.forall_mem_nil _⟩

namespace Lexer

/-- The tokens of the source are one that carries the whole source, and the end of input. -/
def OneToken (kind : TokenKind) (source : List UInt8) : Prop :=
  ∃ data : String, source = Utf8.encode data.toList ∧
    (ofFile ⟨source, none, none⟩).tokens.map (·.1.word) = [⟨kind, data⟩, ⟨.eof, ""⟩]

theorem tokens_of_legible {l : Lexer} {w : Word} (hl : l.rest = w.chars) (hw : w.Legible) :
    l.tokens.map (·.1) = [⟨w.kind, Span.covering l.pos w.chars, w.data, []⟩,
      endAfter (l.pos.advance w.chars) []] := by
  have hrest : l.rest = SpacedWord.spell [⟨[], w⟩] ++ [] := by
    rw [SpacedWord.spell_single, hl, List.append_nil]
  rw [tokens_spaced hrest (SpacedWord.readable_single hw), SpacedWord.spell_single]
  rfl

/-- **The sources of one token of a kind** are the words that the kind promises, if they are all
legible. -/
theorem oneToken_iff {kind : TokenKind} {P : List Char → Prop} (hkind : kind.fixedText? = none)
    (hspelled : ∀ s : String, Word.Spelled ⟨kind, s⟩ → P s.toList)
    (hlegible : ∀ s : String, P s.toList → Word.Legible ⟨kind, s⟩) (source : List UInt8) :
    OneToken kind source ↔ ∃ s : String, source = Utf8.encode s.toList ∧ P s.toList := by
  constructor
  · rintro ⟨s, hsource, htokens⟩
    obtain ⟨p, ps, hps, hword, _⟩ := List.map_eq_cons_iff.mp htokens
    have hp : p ∈ (ofFile ⟨source, none, none⟩).tokens := by simp [hps]
    have hpromise := spelled_of_mem_tokens hp
    rw [hword] at hpromise
    exact ⟨s, hsource, hspelled s hpromise⟩
  · rintro ⟨s, rfl, hs⟩
    have hchars : Word.chars ⟨kind, s⟩ = s.toList := by rw [Word.chars, hkind]; rfl
    have hrest := (rest_ofFile_encode s.toList none none).trans hchars.symm
    have htokens := congrArg (List.map Token.word) (tokens_of_legible hrest (hlegible s hs))
    rw [List.map_map] at htokens
    exact ⟨s, rfl, htokens⟩

end Lexer

/-! ## Numbers -/

namespace Program

variable {fs : FileSystem} {name : String}

theorem ofFile_literal {w : Word} {value : Literal} (hw : w.Legible)
    (hvalue : Spells .atom [w] (.lit value)) (hname : Source.extensionOf name = Source.extension)
    (hfile : fs.openFile name = .ok ⟨Utf8.encode w.chars, none, none⟩) :
    (Program.ofFile fs name).result = .ok ⟨[], .lit value⟩ := by
  rw [← SpacedWord.spell_single] at hfile
  exact ofFile_spaced hname hfile (SpacedWord.readable_single hw) (.main (hvalue.term _ rfl))

theorem parse_outOfRange {t last : Token} (ht : t.kind = .number) (hlast : last.kind = .eof)
    (hvalue : Numeral.value? t.data = none) :
    (Program.parse [t, last]).result = .error ⟨t.pos, .outOfRange t.data⟩ := by
  have hatom : Parser.readAtom [t, last] = .error ⟨⟨t.pos, .outOfRange t.data⟩, [last]⟩ := by
    rw [Parser.readAtom_number ht, Parser.legal_cons (by rw [hlast]; decide), hvalue]
    rfl
  have hterm : Parser.readTerm false [t, last] = .error ⟨⟨t.pos, .outOfRange t.data⟩, [last]⟩ := by
    rw [Parser.readTerm_binary (by rw [ht]; decide) (by rw [ht]; decide) (by rw [ht]; decide),
      Parser.readBinary_eq, Parser.readApplication_eq, hatom]
    rfl
  have hprogram : Parser.programAfter [] [t, last] =
      .error ⟨⟨t.pos, .outOfRange t.data⟩, [last]⟩ := by
    rw [Parser.programAfter_main (by rintro _ ⟨⟩; rw [ht]; decide), Parser.mainTerm_eq, hterm]
    rfl
  rw [Program.parse, Parser.legal_cons (by rw [ht]; decide), Parser.ok_bind, hprogram]

theorem ofFile_outOfRange {s : String} (hs : Word.Legible ⟨.number, s⟩)
    (hvalue : Numeral.value? s = none) (hname : Source.extensionOf name = Source.extension)
    (hfile : fs.openFile name = .ok ⟨Utf8.encode s.toList, none, none⟩) :
    (Program.ofFile fs name).result = .error (.invalid name ⟨.start, .outOfRange s⟩ none) := by
  let t : Token := ⟨.number, Span.covering .start s.toList, s, []⟩
  have hopen : Source.openNamed fs name = .ok ⟨Utf8.encode s.toList, none, none⟩ := by
    rw [Source.openNamed, if_pos hname, hfile]
  have hrest : (Lexer.ofFile ⟨Utf8.encode s.toList, none, none⟩).rest = Word.chars ⟨.number, s⟩ :=
    Lexer.rest_ofFile_encode s.toList none none
  have hparse : (Program.parse ((Lexer.ofFile ⟨Utf8.encode s.toList, none, none⟩).tokens.map
      (·.1))).result = .error ⟨t.pos, .outOfRange t.data⟩ := by
    rw [Lexer.tokens_of_legible hrest hs, Lexer.pos_ofFile]
    exact parse_outOfRange (t := t) rfl rfl hvalue
  obtain ⟨readerError, hresult, hnone⟩ := result_ofFile_of_error hopen hparse
  rw [hresult, hnone rfl]
  rfl

end Program

theorem ReadError.message_outOfRange (name s : String) :
    ReadError.message (.invalid name ⟨.start, .outOfRange s⟩ none) =
      name ++ ":1:1: integer literal " ++ s ++ " out of range" := by
  have hrender : Pos.start.render = "1:1" := by decide +kernel
  show name ++ ":" ++ Pos.start.render ++ ": " ++ ("integer literal " ++ s ++ " out of range") = _
  rw [hrender]
  apply String.toList_injective
  simp

namespace Numeral

theorem spells_of_value? {s : String} {v : Int64} (h : value? s = some v) :
    Spells .atom [⟨.number, s⟩] (.lit (.int v)) := by
  intro ts hts
  obtain ⟨t, us, rfl, hkind, hdata, hus⟩ := exists_of_map_word_cons hts
  obtain rfl := List.map_eq_nil_iff.mp hus
  obtain rfl : t.data = s := hdata
  exact .number hkind h

theorem denotes_of_integer? {s : String} {n : Nat}
    (hnumber : (Lexeme.number s.toList).verdict = .token .number s)
    (hread : integer? s.toList = some (n : Int)) : Denotes s.toList n := by
  obtain ⟨_, m, hm⟩ := Lexeme.exists_denotes_of_number hnumber
  rw [integer?_of_denotes hm] at hread
  obtain rfl : m = n := Int.ofNat.inj (Option.some.inj hread)
  exact hm

/-- **Numerals are exact.** A source is one number and the end of input exactly if it is a numeral.
It is then read as the literal of the number that it denotes if that is below 2⁶³, and refused as
out of range at its start otherwise. -/
theorem oneToken_and_ofFile (source : List UInt8) :
    (Lexer.OneToken .number source ↔
      ∃ (s : String) (n : Nat), source = Utf8.encode s.toList ∧ Denotes s.toList n) ∧
    ∀ (s : String) (n : Nat), source = Utf8.encode s.toList → Denotes s.toList n →
      ∀ (fs : FileSystem) (name : String), Source.extensionOf name = Source.extension →
        fs.openFile name = .ok ⟨source, none, none⟩ →
        (n < 2 ^ 63 →
          ∃ v : Int64, v.toInt = n ∧ (Program.ofFile fs name).result = .ok ⟨[], .lit (.int v)⟩) ∧
        (2 ^ 63 ≤ n →
          ∃ e : ReadError, (Program.ofFile fs name).result = .error e ∧
            e = .invalid name ⟨.start, .outOfRange s⟩ none ∧
            e.message = name ++ ":1:1: integer literal " ++ s ++ " out of range") := by
  constructor
  · rw [Lexer.oneToken_iff (P := fun cs => ∃ n, Denotes cs n) rfl (fun s h => h.number rfl)
      fun s ⟨n, h⟩ => Word.legible_number h]
    simp only [exists_and_left]
  · rintro s n rfl hs fs name hname hfile
    have hlegible := Word.legible_number hs
    have hvalue := value?_of_denotes hs
    constructor
    · intro hn
      rw [if_pos hn] at hvalue
      refine ⟨Int64.ofInt n, toInt_ofInt_of_lt hn, ?_⟩
      exact Program.ofFile_literal hlegible (spells_of_value? hvalue) hname hfile
    · intro hn
      rw [if_neg (Nat.not_lt.mpr hn)] at hvalue
      exact ⟨_, Program.ofFile_outOfRange hlegible hvalue hname hfile, rfl,
        ReadError.message_outOfRange name s⟩

/-- The largest number in base sixteen, and the next one in base ten. -/
theorem oneToken_and_ofFile_limit :
    let largest := "0x_7FFF_ffff_FFFF_ffff"
    let next := "009_223_372_036_854_775_808"
    Lexer.OneToken .number (Utf8.encode largest.toList) ∧
      Lexer.OneToken .number (Utf8.encode next.toList) ∧
      (∃ v : Int64, v.toInt = 9223372036854775807 ∧
        (Program.ofFile (.holding largest.toList) "main.story").result =
          .ok ⟨[], .lit (.int v)⟩) ∧
      ∃ e : ReadError, (Program.ofFile (.holding next.toList) "main.story").result = .error e ∧
        e = .invalid "main.story" ⟨.start, .outOfRange next⟩ none ∧
        e.message = "main.story" ++ ":1:1: integer literal " ++ next ++ " out of range" := by
  intro largest next
  have hlargest : Denotes largest.toList 9223372036854775807 :=
    denotes_of_integer? (by decide +kernel) (by decide +kernel)
  have hnext : Denotes next.toList 9223372036854775808 :=
    denotes_of_integer? (by decide +kernel) (by decide +kernel)
  obtain ⟨hiff, hread⟩ := oneToken_and_ofFile (Utf8.encode largest.toList)
  obtain ⟨hiff', hread'⟩ := oneToken_and_ofFile (Utf8.encode next.toList)
  have hname : Source.extensionOf "main.story" = Source.extension := by decide +kernel
  refine ⟨hiff.mpr ⟨_, _, rfl, hlargest⟩, hiff'.mpr ⟨_, _, rfl, hnext⟩, ?_, ?_⟩
  · exact (hread _ _ rfl hlargest _ _ hname (FileSystem.openFile_holding _)).1 (by decide)
  · exact (hread' _ _ rfl hnext _ _ hname (FileSystem.openFile_holding _)).2 (by decide)

end Numeral

/-! ## Strings -/

theorem Lexer.literalBytes?_of_mem_tokens {l : Lexer} {p : Token × Lexer} (h : p ∈ l.tokens)
    (hkind : p.1.kind = .string) : ∃ bytes, literalBytes? p.1.data = some bytes := by
  obtain ⟨bytes, hbytes⟩ := (spelled_of_mem_tokens h).string hkind
  exact ⟨bytes, literalBytes?_of_denotes hbytes⟩

theorem Program.blames_of_ofFile {fs : FileSystem} {name file : String} {e : SyntaxError}
    {readerError : Option String}
    (h : (Program.ofFile fs name).result = .error (.invalid file e readerError)) :
    ∃ l : Lexer, e.Blames (l.tokens.map (·.1)) := by
  cases hopen : Source.openNamed fs name with
  | error e =>
    rw [Program.ofFile_of_not_open hopen] at h
    cases h
  | ok opened =>
    refine ⟨Lexer.ofFile opened, blames_of_parse ?_⟩
    rw [Program.ofFile_of_open hopen] at h
    simp only [Parsed.program] at h
    split at h
    · next hresult =>
      cases h
      exact hresult
    · split at h <;> cases h

theorem Text.Literal.denotes_of_literalBytes? {s : String} {bytes : List UInt8}
    (hs : s.toList.head? = some '\x22')
    (hscan : Lexeme.stringFrom 1 none s.toList.tail = (s.toList.length, none))
    (hbytes : literalBytes? s = some bytes) : Denotes s.toList bytes := by
  obtain ⟨found, hfound⟩ := Lexeme.exists_denotes_of_stringFrom hscan
  rw [List.cons_head?_tail hs, List.take_length] at hfound
  rw [literalBytes?_of_denotes hfound] at hbytes
  obtain rfl : found = bytes := Option.some.inj hbytes
  exact hfound

/-- **String literals have bytes.** A source is one string and the end of input exactly if it is a
string literal. The literal then has the bytes that its characters and escapes denote, so that no
file is refused for a string without bytes. -/
theorem Text.Literal.oneToken_and_bytes (source : List UInt8) :
    (Lexer.OneToken .string source ↔
      ∃ (s : String) (bytes : List UInt8), source = Utf8.encode s.toList ∧
        Denotes s.toList bytes) ∧
    (∀ (s : String) (bytes : List UInt8), Denotes s.toList bytes →
      literalBytes? s = some bytes) ∧
    ∀ (fs : FileSystem) (name file : String) (pos : Pos) (data : String)
      (readerError : Option String),
      (Program.ofFile fs name).result ≠
        .error (.invalid file ⟨pos, .invalidString data⟩ readerError) := by
  refine ⟨?_, fun s bytes => literalBytes?_of_denotes, ?_⟩
  · rw [Lexer.oneToken_iff (P := fun cs => ∃ bytes, Denotes cs bytes) rfl
      (fun s h => h.string rfl) fun s ⟨bytes, h⟩ => Word.legible_string h]
    simp only [exists_and_left]
  · intro fs name file pos data readerError h
    obtain ⟨l, t, ht, _, hkind, hdata, hnone⟩ := Program.blames_of_ofFile h
    rcases ht with ht | rfl
    · obtain ⟨p, hp, rfl⟩ := List.mem_map.mp ht
      obtain ⟨bytes, hbytes⟩ := Lexer.literalBytes?_of_mem_tokens hp hkind
      rw [hdata, hnone] at hbytes
      cases hbytes
    · cases hkind

/-- An escape of each form, and a character outside the first plane. -/
theorem Text.Literal.oneToken_and_bytes_escapes :
    let s := "\"\\n\\377\\xFf\\u00e9\\U0001F600\\\\\\\"😀\""
    let bytes : List UInt8 :=
      [0x0A, 0xFF, 0xFF, 0xC3, 0xA9, 0xF0, 0x9F, 0x98, 0x80, 0x5C, 0x22, 0xF0, 0x9F, 0x98, 0x80]
    Denotes s.toList bytes ∧ Lexer.OneToken .string (Utf8.encode s.toList) ∧
      literalBytes? s = some bytes := by
  intro s bytes
  have hs : Denotes s.toList bytes :=
    denotes_of_literalBytes? (by decide +kernel) (by decide +kernel) (by decide +kernel)
  obtain ⟨hiff, hbytes, _⟩ := oneToken_and_bytes (Utf8.encode s.toList)
  exact ⟨hs, hiff.mpr ⟨s, bytes, rfl, hs⟩, hbytes s bytes hs⟩

/-! ## Values -/

theorem Literal.chars_word (value : Literal) :
    value.word.chars = (Value.ofLiteral value).render.toList := by
  cases value with
  | int n => rfl
  | bool b => cases b <;> rfl
  | text bytes => rfl

theorem Value.exists_literal {v : Value} (hkind : v.kind ≠ .closure)
    (hint : ∀ n, v = .int n → 0 ≤ n.toInt) :
    ∃ value : Literal, v = .ofLiteral value ∧ value.Writable := by
  cases v with
  | int n => exact ⟨.int n, rfl, hint n rfl⟩
  | bool b => exact ⟨.bool b, rfl, trivial⟩
  | text bytes => exact ⟨.text bytes, rfl, trivial⟩
  | closure => exact absurd rfl hkind

theorem Evaluator.evaluate_literal {e : Evaluator} (h : 0 < e.limit.depth) (registry : Registry)
    (env : Env Value) (value : Literal) :
    (e.evaluate registry env (.lit value)).result = .ok (.ofLiteral value) := by
  obtain ⟨n, hn⟩ := Nat.exists_eq_add_one.mpr h
  rw [evaluate, hn, Traced.run, Term.eval_succ]
  rfl

theorem Program.evaluate_literal (value : Literal) {limit : DepthLimit} (h : 0 < limit.depth) :
    (Program.evaluate .standard limit ⟨[], .lit value⟩).result = .ok (.ofLiteral value) := by
  obtain ⟨table, htable, _⟩ := Registry.table_standard
  have hmain := Evaluator.evaluate_literal (e := ⟨table, limit⟩) h .standard .empty value
  simp only [Program.evaluate, Evaluator.ofDefinitions, htable, Evaluator.define, hmain]
  rfl

theorem DepthLimit.depth_ofNumber_pos (fuel : Nat) (n : Int) :
    0 < (ofNumber (fuel + 1) n).depth := by
  unfold ofNumber
  split
  · show 0 < n.toNat
    omega
  · exact Nat.succ_pos fuel

/-- **What is shown of a value is a literal for it**, unless it is a function or a negative number:
as a source it is read as a program without definitions that is one literal, and the program
evaluates to the value under every limit. -/
theorem Value.ofFile_render {v : Value} (hkind : v.kind ≠ .closure)
    (hint : ∀ n, v = .int n → 0 ≤ n.toInt) {fs : FileSystem} {name : String}
    (hname : Source.extensionOf name = Source.extension)
    (hfile : fs.openFile name = .ok ⟨Utf8.encode v.render.toList, none, none⟩) :
    ∃ value : Literal, (Program.ofFile fs name).result = .ok ⟨[], .lit value⟩ ∧
      ∀ (fuel : Nat) (n : Int),
        (Program.evaluate .standard (.ofNumber (fuel + 1) n) ⟨[], .lit value⟩).result = .ok v := by
  obtain ⟨value, rfl, hvalue⟩ := exists_literal hkind hint
  rw [← Literal.chars_word] at hfile
  refine ⟨value, ?_, fun fuel n => ?_⟩
  · exact Program.ofFile_literal (Literal.legible_word hvalue) (.lit hvalue) hname hfile
  · exact Program.evaluate_literal value (DepthLimit.depth_ofNumber_pos fuel n)

/-- A text of quotes, control characters, a replacement character and a byte that is no text. -/
def Value.mixedText : Value :=
  .text [0x22, 0x5C, 0x0A, 0x00, 0x7F, 0xEF, 0xBF, 0xBD, 0xFF, 0xED, 0xA0, 0x80, 0xF0, 0x9F, 0x98,
    0x80]

theorem Value.ofFile_render_mixedText :
    mixedText.kind ≠ .closure ∧ (∀ n, mixedText = .int n → 0 ≤ n.toInt) ∧
      ∃ value : Literal,
        (Program.ofFile (.holding mixedText.render.toList) "main.story").result =
          .ok ⟨[], .lit value⟩ ∧
        ∀ (fuel : Nat) (n : Int),
          (Program.evaluate .standard (.ofNumber (fuel + 1) n) ⟨[], .lit value⟩).result =
            .ok mixedText := by
  have hkind : mixedText.kind ≠ .closure := by decide
  have hint : ∀ n, mixedText = .int n → 0 ≤ n.toInt := by
    rintro n ⟨⟩
  have hname : Source.extensionOf "main.story" = Source.extension := by decide +kernel
  exact ⟨hkind, hint, ofFile_render hkind hint hname (FileSystem.openFile_holding _)⟩

end TypedLambda
