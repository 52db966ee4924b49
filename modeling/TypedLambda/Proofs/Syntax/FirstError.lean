import TypedLambda.Proofs.Syntax.Refusal

/-!
# The first impossible token

A syntax error is reported at the first token, the end of input included, with which the tokens do
not begin a program any more: `Program.firstImpossible_of_ofTokens`. The tokens before it begin one
by what `Parser.Stops` says about reading a program, and they hold no end of input, since no
derivation does. With the token of the error they do not, since every program that begins with them
would be refused as well.
-/

namespace TypedLambda

/-! ## The end of input -/

namespace Grammar

def EofFree (ts : List Token) : Prop := ∀ t ∈ ts, t.kind ≠ .eof

variable {ts us : List Token}

@[simp] theorem eofFree_nil : EofFree [] := List.forall_mem_nil _

@[simp] theorem eofFree_cons {t : Token} : EofFree (t :: ts) ↔ t.kind ≠ .eof ∧ EofFree ts :=
  List.forall_mem_cons

@[simp] theorem eofFree_append : EofFree (ts ++ us) ↔ EofFree ts ∧ EofFree us :=
  List.forall_mem_append

theorem DerivesType.eofFree {ph : TypePhrase} {a : Ty} (h : DerivesType ph ts a) :
    EofFree ts := by
  induction h with
  | int hkind | bool hkind | text hkind => simp [hkind]
  | paren hleft _ hright ih => simp [hleft, hright, ih]
  | single _ ih => exact ih
  | arrow _ hkind _ ih₁ ih₂ => simp [hkind, ih₁, ih₂]

theorem Derives.eofFree {ph : Phrase} {x : Term} (h : Derives ph ts x) : EofFree ts := by
  induction h with
  | number hkind | string hkind | true hkind | false hkind | var hkind => simp [hkind]
  | paren hleft _ hright ih => simp [hleft, hright, ih]
  | single _ ih | operand _ ih | tighter _ ih | chain _ ih => exact ih
  | app _ _ _ ih₁ ih₂ => exact eofFree_append.mpr ⟨ih₁, ih₂⟩
  | operator _ hbinds _ _ ih₁ ih₂ =>
    have hkind := (binds_iff.mp hbinds).1
    refine eofFree_append.mpr ⟨ih₁, eofFree_cons.mpr ⟨fun heof => ?_, ih₂⟩⟩
    rw [heof] at hkind
    cases hkind
  | lam hbackslash hparam hcolon htype harrow _ ih =>
    simp [hbackslash, hparam, hcolon, htype.eofFree, harrow, ih]
  | letIn hkeyword hname hequals _ hin _ ih₁ ih₂ =>
    simp [hkeyword, hname, hequals, hin, ih₁, ih₂]
  | ite hkeyword _ hthen _ helse _ ih₁ ih₂ ih₃ => simp [hkeyword, hthen, helse, ih₁, ih₂, ih₃]

theorem DerivesProgram.eofFree {p : Program} (h : DerivesProgram ts p) : EofFree ts := by
  induction h with
  | main hmain => exact hmain.eofFree
  | define hkeyword hname hcolon htype hequals hbody _ _ ih =>
    have hnext := eofFree_cons.mp ih
    simp [hkeyword, hname, hcolon, htype.eofFree, hequals, hbody.eofFree, hnext]

end Grammar

/-! ## The first error -/

namespace Program

open Grammar
open TypedLambda.Parser (Valid current valid_append)

/-- Usable tokens that are read as a program when `ending` comes after them. -/
def Accepts (file : String) (ending ts : List Token) : Prop :=
  Usable ts ∧ ∃ p, Program.ofTokens file none (ts ++ ending) = .ok p

/-- The tokens begin some accepted ones with the end of input after them. -/
def Possible (file : String) (ending us : List Token) : Prop :=
  ∃ ts, Accepts file ending ts ∧ us <+: ts ++ [current ending]

/-- Of the tokens `ts` and the end of input after them, `t` is the first one with which they are not
possible any more. It stands at index `k`. -/
structure FirstImpossible (file : String) (ending ts : List Token) (k : Nat) (t : Token) :
    Prop where
  getElem_eq : (ts ++ [current ending])[k]? = some t
  impossible : ¬ Possible file ending ((ts ++ [current ending]).take (k + 1))
  possible : ∀ j < k, Possible file ending ((ts ++ [current ending]).take (j + 1))

section

variable {file : String} {ts ending : List Token}

theorem valid_append_ending (hts : Usable ts) (hending : ∀ t ∈ ending, t.kind = .eof) :
    Valid (ts ++ ending) := by
  refine valid_append.mpr ⟨fun t ht => (hts t ht).toValid, fun t ht => ?_⟩
  have hkind : t.kind = .eof := hending t ht
  refine ⟨?_, ?_, ?_⟩ <;> simp [hkind]

theorem kind_current_ending (hending : ∀ t ∈ ending, t.kind = .eof) :
    (current ending).kind = .eof := by
  cases ending with
  | nil => rfl
  | cons t r => exact hending t (by simp)

theorem ofTokens_eq_error_iff {err : ReadError} (hts : Valid ts) :
    Program.ofTokens file none ts = .error err ↔
      ∃ e rest, err = .invalid file e none ∧ Parser.programAfter [] ts = .error ⟨e, rest⟩ := by
  unfold Program.ofTokens Program.parse Parsed.program
  rw [Parser.legal_of_valid hts, Parser.ok_bind]
  constructor
  · intro h
    cases hread : Parser.programAfter [] ts with
    | ok p =>
      simp only [hread] at h
      cases h
    | error rejection =>
      simp only [hread] at h
      cases h
      exact ⟨rejection.error, rejection.rest, rfl, rfl⟩
  · rintro ⟨e, rest, rfl, hread⟩
    rw [hread]

theorem accepts_of_opens (hts : Usable ts) (hending : ∀ t ∈ ending, t.kind = .eof)
    (h : Opens IsProgram ts) : ∃ more, Accepts file ending (ts ++ more) := by
  obtain ⟨more, hmore, p, hp⟩ := h
  refine ⟨more, usable_append.mpr ⟨hts, hmore⟩, p, ?_⟩
  have hvalid : Valid ending :=
    (valid_append.mp (valid_append_ending hts hending)).2
  have htail : Parser.legal ending.tail = .ok () :=
    Parser.legal_of_valid fun t ht => hvalid t (List.mem_of_mem_tail ht)
  refine ofTokens_eq_ok_iff_programAfter.mpr ⟨ending, ?_⟩
  rw [Parser.legal_append_of_derivesProgram hp, Parser.ok_bind,
    Parser.programAfter_append_of_derivesProgram hp (kind_current_ending hending) htail]
  rfl

theorem split_of_opens {front rest : List Token} (hending : ∀ t ∈ ending, t.kind = .eof)
    (hopen : Opens IsProgram front) (hsplit : ts ++ ending = front ++ rest) :
    ∃ back, ts = front ++ back ∧ rest = back ++ ending := by
  obtain ⟨more, _, p, hp⟩ := hopen
  rcases List.append_eq_append_iff.mp hsplit with ⟨us, rfl, rfl⟩ | ⟨back, rfl, rfl⟩
  · cases us with
    | nil => exact ⟨[], by simp, by simp⟩
    | cons t us => exact absurd (hending t (by simp)) (hp.eofFree t (by simp))
  · exact ⟨back, rfl, rfl⟩

/-- Tokens that are refused whatever stands after the current one are not possible up to it. -/
theorem not_possible {front back : List Token} (hts : Usable (front ++ back))
    (hending : ∀ t ∈ ending, t.kind = .eof)
    (hrefused : ∀ rest, Valid rest → rest.head? = (back ++ ending).head? →
      ∃ r, Parser.programAfter [] (front ++ rest) = .error r) :
    ¬ Possible file ending (front ++ [current (back ++ ending)]) := by
  rintro ⟨us, ⟨hus, p, hp⟩, hbegins⟩
  obtain ⟨rest, hread⟩ := ofTokens_eq_ok_iff_programAfter.mp hp
  obtain ⟨_, _, hprogram⟩ := Parser.bind_eq_ok hread
  have hvalid : Valid (us ++ ending) := valid_append_ending hus hending
  -- it is enough that the accepted tokens go on after `front` with the same token
  suffices hsame : ∃ rest', us ++ ending = front ++ rest' ∧
      rest'.head? = (back ++ ending).head? by
    obtain ⟨rest', hrest', hhead⟩ := hsame
    rw [hrest'] at hprogram hvalid
    obtain ⟨r, hr⟩ := hrefused rest' (valid_append.mp hvalid).2 hhead
    rw [hr] at hprogram
    cases hprogram
  rcases List.prefix_concat_iff.mp hbegins with heq | ⟨vs, rfl⟩
  · obtain ⟨rfl, hcurrent⟩ := List.append_inj' heq rfl
    refine ⟨ending, rfl, ?_⟩
    cases back with
    | nil => rfl
    | cons t back =>
      have hkind : t.kind ≠ .eof := (hts t (by simp)).notEof
      have heof : (current ending).kind = .eof := kind_current_ending hending
      rw [← List.singleton_inj.mp hcurrent] at heof
      exact absurd heof hkind
  · cases back with
    | nil =>
      have hmem : current ([] ++ ending) ∈ front ++ [current ([] ++ ending)] ++ vs := by simp
      exact absurd (kind_current_ending hending) (hus _ hmem).notEof
    | cons t back => exact ⟨t :: (vs ++ ending), by simp [current], rfl⟩

/-- **A syntax error is reported at the first impossible token.** If usable tokens with the end of
input after them are refused, the error stands where the first token begins with which they do not
begin accepted ones any more. The tokens before it can be completed to accepted ones. -/
theorem firstImpossible_of_ofTokens {err : ReadError} (hts : Usable ts)
    (hending : ∀ t ∈ ending, t.kind = .eof)
    (h : Program.ofTokens file none (ts ++ ending) = .error err) :
    ∃ k t fault, err = .invalid file ⟨t.pos, fault⟩ none ∧
      FirstImpossible file ending ts k t ∧ ∃ more, Accepts file ending (ts.take k ++ more) := by
  have hvalid : Valid (ts ++ ending) := valid_append_ending hts hending
  obtain ⟨e, rest, rfl, hread⟩ := (ofTokens_eq_error_iff hvalid).mp h
  obtain ⟨front, hsplit, hpos, hopen, hrefused⟩ :=
    Parser.stops_programAfter [] (ts ++ ending) hvalid e rest hread
  obtain ⟨back, rfl, rfl⟩ := split_of_opens hending hopen hsplit
  obtain ⟨more, haccepts⟩ := accepts_of_opens (usable_append.mp hts).1 hending hopen
  obtain ⟨after, hafter⟩ : ∃ after,
      front ++ back ++ [current ending] = front ++ current (back ++ ending) :: after := by
    cases back with
    | nil => exact ⟨[], by simp⟩
    | cons t back => exact ⟨back ++ [current ending], by simp [current]⟩
  refine ⟨front.length, current (back ++ ending), e.fault, by rw [← hpos], ⟨?_, ?_, ?_⟩, more, ?_⟩
  · rw [hafter]
    simp
  · rw [hafter, List.take_length_add_append]
    exact not_possible hts hending hrefused
  · intro j hj
    refine ⟨front ++ more, haccepts, ?_⟩
    rw [hafter, List.take_append_of_le_length hj, List.append_assoc]
    exact (List.take_prefix _ _).trans (List.prefix_append _ _)
  · rwa [List.take_left]

end

/-- A definition with the body `(1 + n)`, whose `n` stands in column 1, and then a keyword. -/
def strayThen : List Token :=
  [.standingAt 1 1 .defKeyword "", .standingAt 1 5 .ident "n", .standingAt 1 7 .colon "",
    .standingAt 1 9 .ident "Int", .standingAt 1 13 .equals "", .standingAt 1 15 .leftParen "",
    .standingAt 1 16 .number "1", .standingAt 1 18 .plus "", .standingAt 2 1 .ident "n",
    .standingAt 2 2 .rightParen "", .standingAt 2 4 .thenKeyword ""]

theorem firstImpossible_strayThen :
    let stray : Token := .standingAt 2 4 .thenKeyword ""
    let ending : List Token := [.endAt ⟨0, 3, 1⟩]
    let err : ReadError := .invalid "n" ⟨stray.pos, .expectedTerm stray⟩ none
    Usable strayThen ∧ (∀ t ∈ ending, t.kind = .eof) ∧
      Program.ofTokens "n" none (strayThen ++ ending) = .error err ∧
      ∃ k t fault, err = .invalid "n" ⟨t.pos, fault⟩ none ∧
        FirstImpossible "n" ending strayThen k t ∧
        ∃ more, Accepts "n" ending (strayThen.take k ++ more) := by
  intro stray ending err
  have hts : Usable strayThen := by decide
  have hending : ∀ t ∈ ending, t.kind = .eof := by decide
  have hsum : Derives (.term false)
      ([.standingAt 1 16 .number "1"] ++ .standingAt 1 18 .plus "" :: [.standingAt 2 1 .ident "n"])
      (.bin .add (.lit (.int 1)) (.var "n")) := by
    refine .chain (Parser.derives_of_le (by decide) (.operator ?_ .add (by rintro ⟨⟩) ?_))
    · exact Parser.derives_of_le (by decide) (.operand (.single (.number rfl (by decide))))
    · exact Parser.derives_of_le (by decide) (.operand (.single (.var rfl)))
  have hparen : Derives (.term true) ((strayThen.drop 5).take 5)
      (.bin .add (.lit (.int 1)) (.var "n")) :=
    .chain (Parser.derives_of_le (by decide) (.operand (.single (.paren rfl hsum rfl))))
  have hbody : Parser.readTerm true (strayThen.drop 5 ++ ending) =
      .ok (.bin .add (.lit (.int 1)) (.var "n"), stray :: ending) :=
    (Parser.reads_of_derives hparen).readTerm_eq rfl (by decide) (by decide) rfl
  have htype : Parser.readType (strayThen.drop 3 ++ ending) =
      .ok (.int, strayThen.drop 4 ++ ending) :=
    Parser.readsType_of_derivesType (.single (.int (t := .standingAt 1 9 .ident "Int") rfl rfl))
      (strayThen.drop 4 ++ ending) rfl (by rintro _ ⟨⟩; decide)
  have hmain : Parser.programAfter [⟨"n", .int, .bin .add (.lit (.int 1)) (.var "n")⟩]
      (stray :: ending) = .error ⟨⟨stray.pos, .expectedTerm stray⟩, stray :: ending⟩ := by
    rw [Parser.programAfter_main (by rintro _ ⟨⟩; decide), Parser.mainTerm_eq,
      Parser.readTerm_binary (by decide) (by decide) (by decide), Parser.readBinary_eq,
      Parser.readApplication_eq, Parser.readAtom_eq_reject rfl]
    rfl
  have hread : Parser.programAfter [] (strayThen ++ ending) =
      .error ⟨⟨stray.pos, .expectedTerm stray⟩, stray :: ending⟩ := by
    refine (Parser.programAfter_definition rfl _).trans ?_
    show (Parser.readType (strayThen.drop 3 ++ ending) >>= _) = _
    rw [htype]
    show (Parser.readTerm true (strayThen.drop 5 ++ ending) >>= _) = _
    rw [hbody]
    exact hmain
  have herror : Program.ofTokens "n" none (strayThen ++ ending) = .error err :=
    (ofTokens_eq_error_iff (valid_append_ending hts hending)).mpr ⟨_, _, rfl, hread⟩
  exact ⟨hts, hending, herror, firstImpossible_of_ofTokens hts hending herror⟩

end Program

end TypedLambda
