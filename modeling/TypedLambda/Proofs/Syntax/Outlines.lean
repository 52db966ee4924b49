import TypedLambda.Proofs.Syntax.Types
import TypedLambda.Proofs.Text.OneLine
import TypedLambda.Term.Outline

/-!
# Outlines tell programs apart

The indentation of an outline says little: it is the same for the depths `-1` and `1`, and a great
depth is not indented at all. An outline is read from the front instead. Its title names the node
(`Term.toldApart_of_initials`), and each part begins on a new line with a label that the node
determines. A name, a type, an operator or a literal ends with its line, so that what is shown of
two things can be told apart even with more lines after it (`ToldApart`). This is inherited from the
parts by the nodes (`Term.toldApart_outline`), from the nodes by the definitions, and from the
definitions by the program (`Program.outline_identifies`).
-/

namespace TypedLambda

open Text

/-! ## Ends of lines -/

/-- The text is empty or goes on with a new line. -/
def EndsLine (rest : List Char) : Prop := ∀ c ∈ rest.head?, c = '\n'

theorem endsLine_nil : EndsLine [] := by rintro _ ⟨⟩

theorem endsLine_newline (rest : List Char) : EndsLine ('\n' :: rest) := by
  rintro _ ⟨⟩
  rfl

/-- If `a` and `b` are shown, and each time the line ends after them, then equal texts show the same
thing and go on in the same way. -/
def ToldApart {α : Type} (shown : α → String) (a b : α) : Prop :=
  ∀ rest rest' : List Char, EndsLine rest → EndsLine rest' →
    (shown a).toList ++ rest = (shown b).toList ++ rest' → a = b ∧ rest = rest'

theorem Text.OneLine.takeWhile_append {s : String} (hs : OneLine s) {rest : List Char}
    (hrest : EndsLine rest) : (s.toList ++ rest).takeWhile (· != '\n') = s.toList := by
  refine takeWhile_append_of_head? (fun c hc => ?_) fun c hc => ?_
  · have hne : c ≠ '\n' := by
      rintro rfl
      exact hs hc
    simpa using hne
  · simp [hrest c hc]

theorem toldApart_of_oneLine {α : Type} {shown : α → String} {a b : α}
    (ha : OneLine (shown a)) (hb : OneLine (shown b)) (hinj : shown a = shown b → a = b) :
    ToldApart shown a b := by
  intro rest rest' hrest hrest' h
  have hline : (shown a).toList = (shown b).toList := by
    rw [← ha.takeWhile_append hrest, h, hb.takeWhile_append hrest']
  rw [hline] at h
  exact ⟨hinj (String.toList_inj.mp hline), List.append_cancel_left h⟩

theorem toldApart_name {s t : String} (hs : OneLine s) (ht : OneLine t) : ToldApart id s t :=
  toldApart_of_oneLine hs ht id

/-! ## Types, operators and literals -/

theorem Ty.toldApart_render (t u : Ty) : ToldApart render t u :=
  toldApart_of_oneLine t.oneLine_render u.oneLine_render render_injective

theorem Operator.render_injective {op op' : Operator} (h : op.render = op'.render) : op = op' := by
  -- Only an unknown operator is shown with a parenthesis.
  have hparen : ∀ n, '(' ∈ (unknown n).render.toList := by simp [render]
  cases op with
  | unknown n =>
    cases op' with
    | unknown n' =>
      have hnumber : toString n = toString n' :=
        (String.append_right_inj _).mp ((String.append_left_inj _).mp h)
      rw [Numeral.toString_injective hnumber]
    | _ => exact absurd (h ▸ hparen n) (by decide)
  | _ =>
    cases op' with
    | unknown n' => exact absurd (h.symm ▸ hparen n') (by decide)
    | _ => first | rfl | exact absurd h (by decide)

theorem Operator.toldApart_render (op op' : Operator) : ToldApart render op op' :=
  toldApart_of_oneLine op.oneLine_render op'.oneLine_render render_injective

namespace Literal

theorem oneLine_render (value : Literal) : OneLine value.render := by
  cases value with
  | int n => exact oneLine_toString n.toInt
  | bool b => cases b <;> decide
  | text bytes => exact Quoted.oneLine_ofBytes bytes

theorem render_injective {a b : Literal} (h : a.render = b.render) : a = b := by
  -- A text has a quote and a truth value the letter `e`; a number has neither.
  have hquote : ∀ bytes, '\x22' ∈ (text bytes).render.toList := by
    simp [render, Quoted.ofBytes]
  have hletter : ∀ b, 'e' ∈ (bool b).render.toList ∧ '\x22' ∉ (bool b).render.toList := by decide
  have hdigits : ∀ n c, c ∈ (int n).render.toList → c = '-' ∨ isDecimal c = true :=
    fun n c => Numeral.of_mem_toList_toString
  cases a with
  | int m =>
    cases b with
    | int n => rw [Int64.toInt_inj.mp (Numeral.toString_injective h)]
    | bool b => exact absurd (hdigits m 'e' (h ▸ (hletter b).1)) (by decide)
    | text bytes => exact absurd (hdigits m '\x22' (h ▸ hquote bytes)) (by decide)
  | bool a =>
    cases b with
    | int n => exact absurd (hdigits n 'e' (h ▸ (hletter a).1)) (by decide)
    | bool b =>
      revert h
      cases a <;> cases b <;> decide
    | text bytes => exact absurd (h ▸ hquote bytes) (hletter a).2
  | text bytes =>
    cases b with
    | int n => exact absurd (hdigits n '\x22' (h ▸ hquote bytes)) (by decide)
    | bool b => exact absurd (h ▸ hquote bytes) (hletter b).2
    | text bytes' =>
      have hbytes : literalBytes? (Quoted.ofBytes bytes) = literalBytes? (Quoted.ofBytes bytes') :=
        congrArg literalBytes? h
      rw [literalBytes?_ofBytes, literalBytes?_ofBytes] at hbytes
      rw [Option.some.inj hbytes]

theorem toldApart_render (a b : Literal) : ToldApart render a b :=
  toldApart_of_oneLine a.oneLine_render b.oneLine_render render_injective

end Literal

/-! ## Parts -/

theorem endsLine_outlinePart (depth : Int) (label content : String) (rest : List Char) :
    EndsLine ((outlinePart depth label content).toList ++ rest) := by
  simp only [outlinePart, String.toList_append, List.append_assoc]
  exact endsLine_newline _

theorem ToldApart.part {α : Type} {shown : α → String} {a b : α} (hab : ToldApart shown a b)
    {depth : Int} {label : String} {rest rest' : List Char} (hrest : EndsLine rest)
    (hrest' : EndsLine rest')
    (h : (outlinePart depth label (shown a)).toList ++ rest =
      (outlinePart depth label (shown b)).toList ++ rest') : a = b ∧ rest = rest' := by
  simp only [outlinePart, String.toList_append, List.append_assoc, List.append_cancel_left_eq] at h
  exact hab rest rest' hrest hrest' h

theorem ToldApart.part_part {α : Type} {shown : α → String} {a b : α} (hab : ToldApart shown a b)
    {depth : Int} {label next content content' : String} {rest rest' : List Char}
    (h : (outlinePart depth label (shown a)).toList ++
        ((outlinePart depth next content).toList ++ rest) =
      (outlinePart depth label (shown b)).toList ++
        ((outlinePart depth next content').toList ++ rest')) :
    a = b ∧ (outlinePart depth next content).toList ++ rest =
      (outlinePart depth next content').toList ++ rest' :=
  hab.part (endsLine_outlinePart _ _ _ _) (endsLine_outlinePart _ _ _ _) h

/-! ## Terms -/

namespace Term

/-- All names in a term, those that it binds included. -/
def names : Term → List String
  | app func arg => func.names ++ arg.names
  | lam param _ body => param :: body.names
  | lit _ => []
  | var name => [name]
  | bin _ left right => left.names ++ right.names
  | ite cond yes no => cond.names ++ (yes.names ++ no.names)
  | letIn name bound body => name :: (bound.names ++ body.names)
  | builtin name => [name]

def title : Term → String
  | app _ _ => "App"
  | lam _ _ _ => "Lambda"
  | lit _ => "Literal "
  | var _ => "Variable "
  | bin _ _ _ => "Binary"
  | ite _ _ _ => "If"
  | letIn _ _ _ => "Let"
  | builtin _ => "BuiltInFunction "

/-- What the outline of a term has after its title. -/
def afterTitle (depth : Int) : Term → String
  | app func arg =>
    outlinePart (depth + 1) "Func" (func.outline (depth + 1)) ++
      outlinePart (depth + 1) "Arg" (arg.outline (depth + 1))
  | lam param type body =>
    outlinePart (depth + 1) "Param" param ++
      (outlinePart (depth + 1) "ParamType" type.render ++
        outlinePart (depth + 1) "Body" (body.outline (depth + 1)))
  | lit value => value.render
  | var name => name
  | bin op left right =>
    outlinePart (depth + 1) "Left" (left.outline (depth + 1)) ++
      (outlinePart (depth + 1) "Op" op.render ++
        outlinePart (depth + 1) "Right" (right.outline (depth + 1)))
  | ite cond yes no =>
    outlinePart (depth + 1) "Cond" (cond.outline (depth + 1)) ++
      (outlinePart (depth + 1) "Then" (yes.outline (depth + 1)) ++
        outlinePart (depth + 1) "Else" (no.outline (depth + 1)))
  | letIn name bound body =>
    outlinePart (depth + 1) "Name" name ++
      (outlinePart (depth + 1) "Bound" (bound.outline (depth + 1)) ++
        outlinePart (depth + 1) "Body" (body.outline (depth + 1)))
  | builtin name => name

theorem outline_eq (depth : Int) (x : Term) : x.outline depth = x.title ++ x.afterTitle depth := by
  cases x with
  | app => rw [afterTitle, ← String.append_assoc]; rfl
  | lam | bin | ite | letIn =>
    rw [afterTitle, ← String.append_assoc, ← String.append_assoc]; rfl
  | lit | var | builtin => rfl

theorem toList_outline_append (depth : Int) (x : Term) (rest : List Char) :
    (x.outline depth).toList ++ rest = x.title.toList ++ ((x.afterTitle depth).toList ++ rest) := by
  rw [outline_eq, String.toList_append, List.append_assoc]

variable {depth : Int} {x y : Term}

theorem toldApart_of_afterTitle (htitle : x.title = y.title)
    (h : ToldApart (afterTitle depth) x y) : ToldApart (outline depth) x y := by
  intro rest rest' hrest hrest' heq
  rw [toList_outline_append, toList_outline_append, htitle] at heq
  exact h rest rest' hrest hrest' (List.append_cancel_left heq)

theorem toldApart_of_initials (h : x.title.toList.take 2 ≠ y.title.toList.take 2) :
    ToldApart (outline depth) x y := by
  intro rest rest' _ _ heq
  have hlength : ∀ z : Term, 2 ≤ z.title.toList.length := by
    intro z
    cases z <;> simp [title]
  have htake := congrArg (List.take 2) heq
  rw [toList_outline_append, toList_outline_append, List.take_append_of_le_length (hlength x),
    List.take_append_of_le_length (hlength y)] at htake
  exact absurd htake h

theorem toldApart_app {func arg func' arg' : Term}
    (hfunc : ToldApart (outline (depth + 1)) func func')
    (harg : ToldApart (outline (depth + 1)) arg arg') :
    ToldApart (outline depth) (app func arg) (app func' arg') := by
  refine toldApart_of_afterTitle rfl fun rest rest' hrest hrest' h => ?_
  simp only [afterTitle, String.toList_append, List.append_assoc] at h
  obtain ⟨hfunc, h⟩ := hfunc.part_part h
  obtain ⟨harg, h⟩ := harg.part hrest hrest' h
  exact ⟨by rw [hfunc, harg], h⟩

theorem toldApart_lam {param param' : String} {type type' : Ty} {body body' : Term}
    (hparam : OneLine param) (hparam' : OneLine param')
    (hbody : ToldApart (outline (depth + 1)) body body') :
    ToldApart (outline depth) (lam param type body) (lam param' type' body') := by
  refine toldApart_of_afterTitle rfl fun rest rest' hrest hrest' h => ?_
  simp only [afterTitle, String.toList_append, List.append_assoc] at h
  obtain ⟨hparam, h⟩ := (toldApart_name hparam hparam').part_part h
  obtain ⟨htype, h⟩ := (type.toldApart_render type').part_part h
  obtain ⟨hbody, h⟩ := hbody.part hrest hrest' h
  exact ⟨by rw [hparam, htype, hbody], h⟩

theorem toldApart_bin {op op' : Operator} {left right left' right' : Term}
    (hleft : ToldApart (outline (depth + 1)) left left')
    (hright : ToldApart (outline (depth + 1)) right right') :
    ToldApart (outline depth) (bin op left right) (bin op' left' right') := by
  refine toldApart_of_afterTitle rfl fun rest rest' hrest hrest' h => ?_
  simp only [afterTitle, String.toList_append, List.append_assoc] at h
  obtain ⟨hleft, h⟩ := hleft.part_part h
  obtain ⟨hop, h⟩ := (op.toldApart_render op').part_part h
  obtain ⟨hright, h⟩ := hright.part hrest hrest' h
  exact ⟨by rw [hleft, hop, hright], h⟩

theorem toldApart_ite {cond yes no cond' yes' no' : Term}
    (hcond : ToldApart (outline (depth + 1)) cond cond')
    (hyes : ToldApart (outline (depth + 1)) yes yes')
    (hno : ToldApart (outline (depth + 1)) no no') :
    ToldApart (outline depth) (ite cond yes no) (ite cond' yes' no') := by
  refine toldApart_of_afterTitle rfl fun rest rest' hrest hrest' h => ?_
  simp only [afterTitle, String.toList_append, List.append_assoc] at h
  obtain ⟨hcond, h⟩ := hcond.part_part h
  obtain ⟨hyes, h⟩ := hyes.part_part h
  obtain ⟨hno, h⟩ := hno.part hrest hrest' h
  exact ⟨by rw [hcond, hyes, hno], h⟩

theorem toldApart_letIn {name name' : String} {bound body bound' body' : Term}
    (hname : OneLine name) (hname' : OneLine name')
    (hbound : ToldApart (outline (depth + 1)) bound bound')
    (hbody : ToldApart (outline (depth + 1)) body body') :
    ToldApart (outline depth) (letIn name bound body) (letIn name' bound' body') := by
  refine toldApart_of_afterTitle rfl fun rest rest' hrest hrest' h => ?_
  simp only [afterTitle, String.toList_append, List.append_assoc] at h
  obtain ⟨hname, h⟩ := (toldApart_name hname hname').part_part h
  obtain ⟨hbound, h⟩ := hbound.part_part h
  obtain ⟨hbody, h⟩ := hbody.part hrest hrest' h
  exact ⟨by rw [hname, hbound, hbody], h⟩

theorem toldApart_lit (value value' : Literal) :
    ToldApart (outline depth) (lit value) (lit value') := by
  refine toldApart_of_afterTitle rfl fun rest rest' hrest hrest' h => ?_
  obtain ⟨hvalue, h⟩ := value.toldApart_render value' rest rest' hrest hrest' h
  exact ⟨by rw [hvalue], h⟩

theorem toldApart_var {name name' : String} (hname : OneLine name) (hname' : OneLine name') :
    ToldApart (outline depth) (var name) (var name') := by
  refine toldApart_of_afterTitle rfl fun rest rest' hrest hrest' h => ?_
  obtain ⟨hname, h⟩ := toldApart_name hname hname' rest rest' hrest hrest' h
  exact ⟨by rw [hname], h⟩

theorem toldApart_builtin {name name' : String} (hname : OneLine name) (hname' : OneLine name') :
    ToldApart (outline depth) (builtin name) (builtin name') := by
  refine toldApart_of_afterTitle rfl fun rest rest' hrest hrest' h => ?_
  obtain ⟨hname, h⟩ := toldApart_name hname hname' rest rest' hrest hrest' h
  exact ⟨by rw [hname], h⟩

/-- **Terms are told apart by their outlines**, whatever lines come after. -/
theorem toldApart_outline (hx : ∀ name ∈ x.names, OneLine name)
    (hy : ∀ name ∈ y.names, OneLine name) : ToldApart (outline depth) x y := by
  induction x generalizing depth y with
  | app func arg ihFunc ihArg =>
    cases y with
    | app func' arg' =>
      simp only [names, List.forall_mem_append] at hx hy
      exact toldApart_app (ihFunc hx.1 hy.1) (ihArg hx.2 hy.2)
    | _ => exact toldApart_of_initials (by simp [title])
  | lam param type body ihBody =>
    cases y with
    | lam param' type' body' =>
      simp only [names, List.forall_mem_cons] at hx hy
      exact toldApart_lam hx.1 hy.1 (ihBody hx.2 hy.2)
    | _ => exact toldApart_of_initials (by simp [title])
  | lit value =>
    cases y with
    | lit value' => exact toldApart_lit value value'
    | _ => exact toldApart_of_initials (by simp [title])
  | var name =>
    cases y with
    | var name' => exact toldApart_var (hx _ List.mem_cons_self) (hy _ List.mem_cons_self)
    | _ => exact toldApart_of_initials (by simp [title])
  | bin op left right ihLeft ihRight =>
    cases y with
    | bin op' left' right' =>
      simp only [names, List.forall_mem_append] at hx hy
      exact toldApart_bin (ihLeft hx.1 hy.1) (ihRight hx.2 hy.2)
    | _ => exact toldApart_of_initials (by simp [title])
  | ite cond yes no ihCond ihYes ihNo =>
    cases y with
    | ite cond' yes' no' =>
      simp only [names, List.forall_mem_append] at hx hy
      exact toldApart_ite (ihCond hx.1 hy.1) (ihYes hx.2.1 hy.2.1) (ihNo hx.2.2 hy.2.2)
    | _ => exact toldApart_of_initials (by simp [title])
  | letIn name bound body ihBound ihBody =>
    cases y with
    | letIn name' bound' body' =>
      simp only [names, List.forall_mem_cons, List.forall_mem_append] at hx hy
      exact toldApart_letIn hx.1 hy.1 (ihBound hx.2.1 hy.2.1) (ihBody hx.2.2 hy.2.2)
    | _ => exact toldApart_of_initials (by simp [title])
  | builtin name =>
    cases y with
    | builtin name' => exact toldApart_builtin (hx _ List.mem_cons_self) (hy _ List.mem_cons_self)
    | _ => exact toldApart_of_initials (by simp [title])

end Term

/-! ## Definitions and programs -/

def Definition.names (d : Definition) : List String := d.name :: d.body.names

def Program.names (p : Program) : List String :=
  p.definitions.flatMap Definition.names ++ p.main.names

theorem Definition.toldApart_outline {depth : Int} {d e : Definition}
    (hd : ∀ name ∈ d.names, OneLine name) (he : ∀ name ∈ e.names, OneLine name) :
    ToldApart (outline depth) d e := by
  obtain ⟨name, type, body⟩ := d
  obtain ⟨name', type', body'⟩ := e
  intro rest rest' hrest hrest' h
  simp only [names, List.forall_mem_cons] at hd he
  simp only [outline, String.toList_append, List.append_assoc, List.append_cancel_left_eq] at h
  obtain ⟨hname, h⟩ := (toldApart_name hd.1 he.1).part_part h
  obtain ⟨htype, h⟩ := (type.toldApart_render type').part_part h
  obtain ⟨hbody, h⟩ := (Term.toldApart_outline hd.2 he.2).part hrest hrest' h
  exact ⟨by rw [hname, htype, hbody], h⟩

theorem Definition.outline_append_ne (depth : Int) (d : Definition) (rest rest' : List Char) :
    (d.outline depth).toList ++ rest ≠ "Expr".toList ++ rest' := by
  simp [outline]

namespace Program

/-- What the outline of a program has after its title: the definitions, then the main term. -/
def afterTitle (depth : Int) (main : Term) : List Definition → List Char
  | [] => (outlinePart depth "Expr" (main.outline depth)).toList
  | d :: ds =>
    ("\n" ++ indentation depth).toList ++ ((d.outline depth).toList ++ afterTitle depth main ds)

theorem toList_outline (depth : Int) (p : Program) :
    (p.outline depth).toList =
      "Prog".toList ++ afterTitle (depth + 1) p.main p.definitions := by
  have hlines : ∀ ds : List Definition, afterTitle (depth + 1) p.main ds =
      (String.join (ds.map fun d => "\n" ++ indentation (depth + 1) ++ d.outline (depth + 1)) ++
        outlinePart (depth + 1) "Expr" (p.main.outline (depth + 1))).toList := by
    intro ds
    induction ds with
    | nil => simp [afterTitle]
    | cons d ds ih => simp [afterTitle, ih]
  rw [hlines, ← String.toList_append, outline, String.append_assoc]

theorem endsLine_afterTitle (depth : Int) (main : Term) (ds : List Definition) :
    EndsLine (afterTitle depth main ds) := by
  cases ds with
  | nil => exact List.append_nil (afterTitle depth main []) ▸ endsLine_outlinePart _ _ _ []
  | cons d ds =>
    rw [afterTitle, String.toList_append, List.append_assoc]
    exact endsLine_newline _

/-- Programs are read off what comes after the title, one definition after the other. -/
theorem eq_of_afterTitle {depth : Int} {main main' : Term} {ds es : List Definition}
    (hmain : ∀ name ∈ main.names, OneLine name) (hmain' : ∀ name ∈ main'.names, OneLine name)
    (hds : ∀ d ∈ ds, ∀ name ∈ d.names, OneLine name)
    (hes : ∀ e ∈ es, ∀ name ∈ e.names, OneLine name)
    (h : afterTitle depth main ds = afterTitle depth main' es) : ds = es ∧ main = main' := by
  have hexpr : ∀ (x : Term) (e : Definition) (rest : List Char),
      (outlinePart depth "Expr" (x.outline depth)).toList ≠
        ("\n" ++ indentation depth).toList ++ ((e.outline depth).toList ++ rest) := by
    intro x e rest heq
    simp only [outlinePart, String.toList_append, List.append_assoc,
      List.append_cancel_left_eq] at heq
    exact e.outline_append_ne depth _ _ heq.symm
  induction ds generalizing es with
  | nil =>
    cases es with
    | nil =>
      have heq := (Term.toldApart_outline hmain hmain').part endsLine_nil endsLine_nil
        (congrArg (· ++ []) h)
      exact ⟨rfl, heq.1⟩
    | cons e es => exact absurd h (hexpr main e _)
  | cons d ds ih =>
    cases es with
    | nil => exact absurd h.symm (hexpr main' d _)
    | cons e es =>
      rw [List.forall_mem_cons] at hds hes
      obtain ⟨hd, h⟩ := Definition.toldApart_outline hds.1 hes.1 _ _
        (endsLine_afterTitle depth main ds) (endsLine_afterTitle depth main' es)
        (List.append_cancel_left h)
      obtain ⟨htail, hmain⟩ := ih hds.2 hes.2 h
      exact ⟨by rw [hd, htail], hmain⟩

/-- **An outline identifies the program**, at every depth: programs whose names are on one line, and
terms with such names, are equal if their outlines are. -/
theorem outline_identifies (depth : Int) :
    (∀ p q : Program, (∀ name ∈ p.names, OneLine name) → (∀ name ∈ q.names, OneLine name) →
      p.outline depth = q.outline depth → p = q) ∧
    ∀ x y : Term, (∀ name ∈ x.names, OneLine name) → (∀ name ∈ y.names, OneLine name) →
      x.outline depth = y.outline depth → x = y := by
  refine ⟨?_, fun x y hx hy h => ?_⟩
  · rintro ⟨ds, main⟩ ⟨es, main'⟩ hp hq h
    simp only [names, List.forall_mem_append, List.forall_mem_flatMap] at hp hq
    have hlines : afterTitle (depth + 1) main ds = afterTitle (depth + 1) main' es := by
      have hchars := congrArg String.toList h
      rw [toList_outline, toList_outline] at hchars
      exact List.append_cancel_left hchars
    obtain ⟨hdefinitions, hmain⟩ := eq_of_afterTitle hp.2 hq.2 hp.1 hq.1 hlines
    rw [hdefinitions, hmain]
  · exact (Term.toldApart_outline hx hy [] [] endsLine_nil endsLine_nil (by rw [h])).1

/-- A program whose names look like lines of an outline. -/
def oddNames (op : Operator) : Program where
  definitions := [⟨"Expr: Variable x", .fn .int .int,
    .lam "" .int (.bin op (.var "  Op: Add") (.lit (.int (-1))))⟩]
  main := .letIn "Def" (.lit (.text [0xFF, 0x0A])) (.builtin "Body")

theorem outline_identifies_oddNames :
    (∀ name ∈ (oddNames (.unknown 9)).names, OneLine name) ∧
    (oddNames (.ofNumber 9)).outline (-1) = (oddNames (.unknown 9)).outline (-1) ∧
    oddNames (.ofNumber 9) = oddNames (.unknown 9) := by
  have hnames : ∀ op, ∀ name ∈ (oddNames op).names, OneLine name := by
    intro op
    show ∀ name ∈ ["Expr: Variable x", "", "  Op: Add", "Def", "Body"], OneLine name
    decide
  exact ⟨hnames _, rfl, (outline_identifies (-1)).1 _ _ (hnames _) (hnames _) rfl⟩

end Program

-- A newline in a name could pretend to end the line.
example :
    Term.outline 0 (.app (.var "f\n  Arg: Variable x") (.var "y")) =
      Term.outline 0 (.app (.var "f") (.var "x\n  Arg: Variable y")) := by
  decide +kernel

end TypedLambda
