import LedgerBench.Proofs.Template.Scan
/-!
Templates with nested expressions, and what each pass does to their text.

The passes of an evaluation know only text, while whoever writes a template thinks of expressions
inside expressions. A `ResolvedPiece` is a tree of such expressions, each with what it came to; its
text after `k` passes shows what the expressions of the first `k` forms came to and writes out the
others. What is proved:
  1. `Passes`: a pass over a text can be put together from passes over its parts, of which an
     expression of the form is one and any text in which the form's opener cannot begin is another.
  2. `passes_of_wellNested`: for a well-nested tree, the pass of the form with place `k` finds
     exactly the tree's expressions of this form, with their bodies expanded, and takes the text
     after `k` passes to the text after `k + 1`.
-/

namespace LedgerBench

/-- Where a form stands in the pipeline. -/
def Form.place : Form → Nat
  | sequence => 0
  | random => 1
  | pad => 2
  | file => 3
  | set => 4
  | reference => 5

theorem Form.place_inj {f g : Form} (h : f.place = g.place) : f = g := by
  cases f <;> cases g <;> first | rfl | cases h

theorem Form.place_le (f : Form) : f.place ≤ Form.reference.place := by
  cases f <;> decide

/-! ## Trees of expressions -/

/-- A part of a template: text, or an expression whose body is a template again. -/
inductive Piece where
  | literal (text : List Char)
  | expression (form : Form) (body : List Piece)

mutual

/-- The template that a piece is written as. -/
def Piece.source : Piece → List Char
  | .literal text => text
  | .expression form body => form.written (sourceOf body)

def Piece.sourceOf : List Piece → List Char
  | [] => []
  | p :: rest => p.source ++ sourceOf rest

end

/-- A part of a template, with what became of each expression in it. -/
inductive ResolvedPiece where
  | literal (text : List Char)
  | expression (form : Form) (body : List ResolvedPiece) (resolution : Resolution)

/-- What became of one expression, and the body it was resolved with. -/
structure Expansion where
  form : Form
  body : List Char
  resolution : Resolution
  deriving DecidableEq, Repr

def Expansion.ofForm (form : Form) (es : List Expansion) : List Expansion :=
  es.filter fun e => e.form = form

namespace ResolvedPiece

mutual

/-- The text that a piece stands for. -/
def value : ResolvedPiece → List Char
  | literal text => text
  | expression form body r => form.shown (valueOf body) r

def valueOf : List ResolvedPiece → List Char
  | [] => []
  | v :: rest => value v ++ valueOf rest

end

mutual

/-- The expressions of a piece, those in a body before the one that the body belongs to. -/
def expansions : ResolvedPiece → List Expansion
  | literal _ => []
  | expression form body r => expansionsOf body ++ [{ form, body := valueOf body, resolution := r }]

def expansionsOf : List ResolvedPiece → List Expansion
  | [] => []
  | v :: rest => expansions v ++ expansionsOf rest

end

mutual

/-- The text of a piece when the first `k` forms have been expanded. -/
def text (k : Nat) : ResolvedPiece → List Char
  | literal text => text
  | expression form body r =>
    if form.place < k then form.shown (textOf k body) r else form.written (textOf k body)

def textOf (k : Nat) : List ResolvedPiece → List Char
  | [] => []
  | v :: rest => text k v ++ textOf k rest

end

/-! ### Well-nested trees -/

/-- Whether a text can stand in a body without being taken for a part of an expression. -/
def isPlain (s : List Char) : Bool := s.all fun c => c ≠ '$' ∧ c ≠ ')' ∧ c ≠ '\x7d'

mutual

/-- Whether a piece may stand in the body of an expression whose form has the place `bound`. -/
def isNested (bound : Nat) : ResolvedPiece → Bool
  | literal text => isPlain text
  | expression form body r =>
    form.place < bound && isNestedAll form.place body && r.toOption.any isPlain

def isNestedAll (bound : Nat) : List ResolvedPiece → Bool
  | [] => true
  | v :: rest => isNested bound v && isNestedAll bound rest

end

/-- Whether a piece may stand outside of all expressions. -/
def isTop : ResolvedPiece → Bool
  | literal text => !text.contains '$'
  | expression form body r =>
    isNestedAll form.place body && r.toOption.all fun text =>
      form = .reference || !text.contains '$'

/-- Literals hold no dollar; an expression in a body belongs to an earlier form than the body's, and
was resolved to plain text; outside of bodies, only references may be resolved to a text with a
dollar. -/
def WellNested (vs : List ResolvedPiece) : Prop := ∀ v ∈ vs, v.isTop = true

instance (vs : List ResolvedPiece) : Decidable (WellNested vs) :=
  inferInstanceAs (Decidable (∀ v ∈ vs, v.isTop = true))

end ResolvedPiece

/-! ## Parts of a text -/

/-- A text in which the opener of a form cannot begin, whatever follows it. -/
def Form.Inert (form : Form) (t : List Char) : Prop :=
  ∀ rest, Text.cut form.opener (t ++ rest) = Text.pass t (Text.cut form.opener rest)

namespace Form

variable {form : Form} {t u : List Char}

theorem Inert.append (ht : form.Inert t) (hu : form.Inert u) : form.Inert (t ++ u) := by
  intro rest
  rw [List.append_assoc, ht, hu, Text.pass_pass]

theorem opener_eq (form : Form) : ∃ more, form.opener = '$' :: more ∧ '$' ∉ more := by
  cases form <;> exact ⟨_, rfl, by decide⟩

theorem closer_eq (form : Form) : form.closer = ')' ∨ form.closer = '\x7d' := by
  cases form <;> simp [closer]

theorem inert_of_not_mem (h : '$' ∉ t) : form.Inert t := by
  obtain ⟨more, hopener, -⟩ := form.opener_eq
  intro rest
  rw [hopener]
  exact Text.cut_append h rest

theorem eq_of_prefix_opener {f g : Form} (h : f.opener <+: g.opener) : f = g := by
  revert h
  cases f <;> cases g <;> decide

/-- Where one form's opener stands, no other form's does. -/
theorem not_prefix_opener {f g : Form} (h : g ≠ f) (rest : List Char) :
    ¬ f.opener <+: g.opener ++ rest := by
  intro hstarts
  rcases List.prefix_or_prefix_of_prefix hstarts (List.prefix_append g.opener rest) with hf | hg
  · exact h (eq_of_prefix_opener hf).symm
  · exact h (eq_of_prefix_opener hg)

theorem inert_opener {g : Form} (h : g ≠ form) : form.Inert g.opener := by
  obtain ⟨more, hopener, hmore⟩ := g.opener_eq
  intro rest
  have hfront : ¬ form.opener <+: '$' :: (more ++ rest) := by
    have := not_prefix_opener h rest
    rwa [hopener] at this
  rw [hopener, List.cons_append, Text.cut_cons hfront, inert_of_not_mem hmore, Text.pass_pass]
  rfl

theorem inert_closer (g : Form) : form.Inert [g.closer] := by
  refine inert_of_not_mem ?_
  rcases g.closer_eq with h | h <;> rw [h] <;> decide

theorem inert_written {g : Form} {body : List Char} (h : g ≠ form) (hbody : form.Inert body) :
    form.Inert (g.written body) :=
  ((inert_opener h).append hbody).append (inert_closer g)

end Form

/-- A pass over a part of a text: whatever follows the part, the pass finds these expressions in it,
and with what they came to it turns the part into another text. -/
def Passes (form : Form) (t : List Char) (es : List Expansion) (t' : List Char) : Prop :=
  ∀ rest hits tail rs, Decomposes form rest hits tail → hits.length = rs.length → ∃ hits' tail',
    Decomposes form (t ++ rest) hits' tail' ∧
      hits'.map Hit.body = es.map Expansion.body ++ hits.map Hit.body ∧
      form.rewritten hits' (es.map Expansion.resolution ++ rs) tail' =
        t' ++ form.rewritten hits rs tail ∧
      form.unterminated tail' = form.unterminated tail

namespace Passes

variable {form : Form} {t t' u u' : List Char} {es fs : List Expansion}

theorem append (ht : Passes form t es t') (hu : Passes form u fs u') :
    Passes form (t ++ u) (es ++ fs) (t' ++ u') := by
  intro rest hits tail rs h hlength
  obtain ⟨hits₁, tail₁, h₁, hbodies₁, htext₁, htail₁⟩ := hu _ _ _ rs h hlength
  have hlength₁ : hits₁.length = (fs.map Expansion.resolution ++ rs).length := by
    have := congrArg List.length hbodies₁
    simp only [List.length_map, List.length_append] at this ⊢
    omega
  obtain ⟨hits₂, tail₂, h₂, hbodies₂, htext₂, htail₂⟩ := ht _ _ _ _ h₁ hlength₁
  refine ⟨hits₂, tail₂, ?_, ?_, ?_, htail₂.trans htail₁⟩
  · rwa [List.append_assoc]
  · rw [hbodies₂, hbodies₁, List.map_append, List.append_assoc]
  · rw [List.map_append, List.append_assoc, htext₂, htext₁, List.append_assoc]

theorem of_inert (ht : form.Inert t) : Passes form t [] t := by
  intro rest hits tail rs h hlength
  cases h with
  | tail hnone =>
    refine ⟨[], t ++ rest, .tail ?_, rfl, ?_, ?_⟩
    · intro before inner opened
      rw [← Text.cut_eq_some_iff, ht] at opened
      obtain ⟨⟨before', inner'⟩, hcut, hpair⟩ := Option.map_eq_some_iff.mp opened
      obtain ⟨-, rfl⟩ := Prod.mk.inj hpair
      exact hnone before' inner' (Text.cut_eq_some_iff.mp hcut)
    · simp [Form.rewritten]
    · rw [Form.unterminated, Form.unterminated, Form.dangling, Form.dangling, ht]
      cases Text.cut form.opener rest <;> rfl
  | @hit _ before inner body rest' _ hits opened closed more =>
    refine ⟨{ before := t ++ before, body } :: hits, tail, .hit ?_ closed more, rfl, ?_, rfl⟩
    · rw [← Text.cut_eq_some_iff, ht, Text.cut_eq_some_iff.mpr opened]
      rfl
    · cases rs with
      | nil => cases hlength
      | cons r rs => simp [Form.rewritten]

theorem expression {body : List Char} (hbody : form.closer ∉ body) (r : Resolution) :
    Passes form (form.written body) [{ form, body, resolution := r }] (form.shown body r) := by
  intro rest hits tail rs h _
  have opened :
      Text.FirstAt form.opener (form.written body ++ rest) [] (body ++ form.closer :: rest) := by
    rw [← Text.cut_eq_some_iff]
    simp [Form.written, Text.cut_pattern_append]
  have closed : Text.FirstAt [form.closer] (body ++ form.closer :: rest) body rest :=
    Text.cut_eq_some_iff.mp (Text.cut_singleton hbody rest)
  refine ⟨{ before := [], body } :: hits, tail, .hit opened closed h, rfl, ?_, rfl⟩
  simp [Form.rewritten]

/-- What a pass over a part says of the part alone. -/
theorem decomposes (h : Passes form t es t') : ∃ hits tail,
    Decomposes form t hits tail ∧ hits.map Hit.body = es.map Expansion.body ∧
      form.rewritten hits (es.map Expansion.resolution) tail = t' ∧
        form.unterminated tail = [] := by
  have hnil : ¬ form.opener <:+: [] := by
    obtain ⟨more, hopener, -⟩ := form.opener_eq
    simp [hopener]
  have hempty : Decomposes form [] [] [] :=
    .tail fun before inner opened => absurd opened.isInfix hnil
  obtain ⟨hits, tail, hd, hbodies, htext, htail⟩ := h _ _ _ [] hempty rfl
  simp only [List.append_nil, List.map_nil] at hd hbodies htext
  refine ⟨hits, tail, hd, hbodies, ?_, ?_⟩
  · simpa [Form.rewritten] using htext
  · rw [htail, unterminated_of_unopened hnil]

end Passes

/-! ## Passes over a tree -/

namespace ResolvedPiece

theorem isPlain_iff {s : List Char} : isPlain s = true ↔ '$' ∉ s ∧ ')' ∉ s ∧ '\x7d' ∉ s := by
  simp only [isPlain, List.all_eq_true, decide_eq_true_eq]
  constructor
  · intro h
    exact ⟨fun hmem => (h _ hmem).1 rfl, fun hmem => (h _ hmem).2.1 rfl,
      fun hmem => (h _ hmem).2.2 rfl⟩
  · rintro ⟨hdollar, hround, hcurly⟩ c hc
    refine ⟨?_, ?_, ?_⟩ <;> rintro rfl <;> contradiction

theorem isPlain_append {s t : List Char} : isPlain (s ++ t) = (isPlain s && isPlain t) :=
  List.all_append

theorem closer_not_mem_of_isPlain {s : List Char} (h : isPlain s = true) (form : Form) :
    form.closer ∉ s := by
  obtain ⟨-, hround, hcurly⟩ := isPlain_iff.mp h
  rcases form.closer_eq with heq | heq <;> rwa [heq]

mutual

/-- A piece that may stand in a body is plain text once the forms before the body's are expanded,
and no later pass changes it. -/
theorem text_of_isNested {bound k : Nat} (hk : bound ≤ k) :
    ∀ v : ResolvedPiece, v.isNested bound = true → v.text k = v.value ∧ isPlain v.value = true
  | .literal t, h => ⟨rfl, h⟩
  | .expression form body (.ok t), h => by
    simp only [isNested, Bool.and_eq_true, decide_eq_true_eq] at h
    obtain ⟨⟨hform, -⟩, ht⟩ := h
    have hlt : form.place < k := by omega
    exact ⟨by rw [text, if_pos hlt]; rfl, ht⟩
  | .expression form body (.error e), h => by simp [isNested, Except.toOption] at h

theorem textOf_of_isNestedAll {bound k : Nat} (hk : bound ≤ k) :
    ∀ vs : List ResolvedPiece, isNestedAll bound vs = true → textOf k vs = valueOf vs ∧
      isPlain (valueOf vs) = true
  | [], _ => ⟨rfl, rfl⟩
  | v :: rest, h => by
    rw [isNestedAll, Bool.and_eq_true] at h
    obtain ⟨htext, hplain⟩ := text_of_isNested hk v h.1
    obtain ⟨htexts, hplains⟩ := textOf_of_isNestedAll hk rest h.2
    rw [textOf, valueOf, htext, htexts, isPlain_append, hplain, hplains]
    exact ⟨rfl, rfl⟩

end

mutual

theorem place_lt_of_isNested {bound : Nat} : ∀ v : ResolvedPiece, v.isNested bound = true →
    ∀ e ∈ v.expansions, e.form.place < bound
  | .literal _, _, _, he => nomatch he
  | .expression form body r, h, e, he => by
    rw [isNested, Bool.and_eq_true, Bool.and_eq_true, decide_eq_true_eq] at h
    obtain ⟨⟨hform, hbody⟩, -⟩ := h
    rw [expansions, List.mem_append, List.mem_singleton] at he
    rcases he with he | rfl
    · exact (place_lt_of_isNestedAll body hbody e he).trans hform
    · exact hform

/-- The expressions of a body belong to earlier forms than the body. -/
theorem place_lt_of_isNestedAll {bound : Nat} :
    ∀ vs : List ResolvedPiece, isNestedAll bound vs = true →
    ∀ e ∈ expansionsOf vs, e.form.place < bound
  | [], _, _, he => nomatch he
  | v :: rest, h, e, he => by
    rw [isNestedAll, Bool.and_eq_true] at h
    rw [expansionsOf, List.mem_append] at he
    rcases he with he | he
    · exact place_lt_of_isNested v h.1 e he
    · exact place_lt_of_isNestedAll rest h.2 e he

end

theorem ofForm_append (form : Form) (es fs : List Expansion) :
    Expansion.ofForm form (es ++ fs) = Expansion.ofForm form es ++ Expansion.ofForm form fs :=
  List.filter_append ..

theorem ofForm_eq_nil {form : Form} {es : List Expansion} (h : ∀ e ∈ es, e.form ≠ form) :
    Expansion.ofForm form es = [] := by
  rw [Expansion.ofForm, List.filter_eq_nil_iff]
  intro e he
  simpa using h e he

theorem ofForm_expansionsOf {form : Form} {bound : Nat} {body : List ResolvedPiece}
    (h : isNestedAll bound body = true) (hle : bound ≤ form.place) :
    Expansion.ofForm form (expansionsOf body) = [] := by
  refine ofForm_eq_nil fun e he hform => ?_
  have hlt := place_lt_of_isNestedAll body h e he
  rw [hform] at hlt
  omega

/-- The pass of a form over one expression. An expression of an earlier form has been replaced by a
text that no opener stands in, or was left as it is written; one of the form itself has a body in
which no closer stands; of one of a later form the pass changes the body. -/
theorem passes_expression {form g : Form} {body : List ResolvedPiece} {r : Resolution}
    (hbody : isNestedAll g.place body = true) (hshown : ∀ t, r = .ok t → g ≠ .reference → '$' ∉ t)
    (ih : Passes form (textOf form.place body) (Expansion.ofForm form (expansionsOf body))
      (textOf (form.place + 1) body)) :
    Passes form (text form.place (.expression g body r))
      (Expansion.ofForm form (expansions (.expression g body r)))
      (text (form.place + 1) (.expression g body r)) := by
  rw [expansions, ofForm_append]
  rcases Nat.lt_trichotomy g.place form.place with hlt | heq | hgt
  · have hne : g ≠ form := by rintro rfl; exact absurd hlt (Nat.lt_irrefl _)
    have hempty := ofForm_expansionsOf hbody hlt.le
    obtain ⟨htext, hplain⟩ := textOf_of_isNestedAll (k := form.place) hlt.le body hbody
    obtain ⟨htext', -⟩ := textOf_of_isNestedAll (k := form.place + 1) (by omega) body hbody
    have hinert : form.Inert (g.shown (valueOf body) r) := by
      cases r with
      | ok t =>
        have hlast := form.place_le
        exact Form.inert_of_not_mem (hshown t rfl (by rintro rfl; omega))
      | error e =>
        exact Form.inert_written hne (Form.inert_of_not_mem (isPlain_iff.mp hplain).1)
    rw [hempty, ofForm_eq_nil (by simpa using hne), text, text, if_pos hlt, if_pos (by omega),
      htext, htext']
    exact .of_inert hinert
  · obtain rfl := Form.place_inj heq
    have hempty := ofForm_expansionsOf hbody le_rfl
    obtain ⟨htext, hplain⟩ := textOf_of_isNestedAll (k := g.place) le_rfl body hbody
    obtain ⟨htext', -⟩ := textOf_of_isNestedAll (k := g.place + 1) (by omega) body hbody
    have hself : Expansion.ofForm g [{ form := g, body := valueOf body, resolution := r }] =
        [⟨g, valueOf body, r⟩] := by
      simp [Expansion.ofForm]
    rw [hempty, hself, text, text, if_neg (Nat.lt_irrefl _), if_pos (Nat.lt_succ_self _),
      htext, htext']
    exact Passes.expression (closer_not_mem_of_isPlain hplain g) r
  · have hne : g ≠ form := by rintro rfl; exact absurd hgt (Nat.lt_irrefl _)
    have hpass :=
      ((Passes.of_inert (Form.inert_opener hne)).append ih).append (.of_inert (Form.inert_closer g))
    have hother :
        Expansion.ofForm form [{ form := g, body := valueOf body, resolution := r }] = [] :=
      ofForm_eq_nil (by simpa using hne)
    rw [hother, text, text, if_neg (by omega), if_neg (by omega)]
    simpa [Form.written] using hpass

mutual

theorem passes_of_isNested {bound : Nat} (form : Form) :
    ∀ v : ResolvedPiece, v.isNested bound = true →
    Passes form (v.text form.place) (Expansion.ofForm form v.expansions) (v.text (form.place + 1))
  | .literal t, h => .of_inert (Form.inert_of_not_mem (isPlain_iff.mp h).1)
  | .expression g body r, h => by
    rw [isNested, Bool.and_eq_true, Bool.and_eq_true] at h
    obtain ⟨⟨-, hbody⟩, hr⟩ := h
    refine passes_expression hbody ?_ (passes_of_isNestedAll form body hbody)
    rintro t rfl -
    exact (isPlain_iff.mp hr).1

theorem passes_of_isNestedAll {bound : Nat} (form : Form) :
    ∀ vs : List ResolvedPiece, isNestedAll bound vs = true →
    Passes form (textOf form.place vs) (Expansion.ofForm form (expansionsOf vs))
      (textOf (form.place + 1) vs)
  | [], _ => .of_inert fun rest => (Text.pass_nil _).symm
  | v :: rest, h => by
    rw [isNestedAll, Bool.and_eq_true] at h
    rw [textOf, textOf, expansionsOf, ofForm_append]
    exact (passes_of_isNested form v h.1).append (passes_of_isNestedAll form rest h.2)

end

/-- The pass of a form over a well-nested tree finds the expressions of this form, with their
expanded bodies, and nothing else. -/
theorem passes_of_wellNested (form : Form) {vs : List ResolvedPiece} (h : WellNested vs) :
    Passes form (textOf form.place vs) (Expansion.ofForm form (expansionsOf vs))
      (textOf (form.place + 1) vs) := by
  induction vs with
  | nil => exact .of_inert fun rest => (Text.pass_nil _).symm
  | cons v rest ih =>
    have hrest : WellNested rest := fun w hw => h w (List.mem_cons_of_mem _ hw)
    have hv := h v List.mem_cons_self
    have head : Passes form (v.text form.place) (Expansion.ofForm form v.expansions)
        (v.text (form.place + 1)) := by
      cases v with
      | literal t =>
        have hliteral : '$' ∉ t := by simpa [isTop] using hv
        exact .of_inert (Form.inert_of_not_mem hliteral)
      | expression g body r =>
        rw [isTop, Bool.and_eq_true] at hv
        obtain ⟨hbody, hr⟩ := hv
        refine passes_expression hbody ?_ (passes_of_isNestedAll form body hbody)
        rintro t rfl hne
        simpa [Except.toOption, hne] using hr
    rw [textOf, textOf, expansionsOf, ofForm_append]
    exact head.append (ih hrest)

/-! ## Before the first pass and after the last -/

mutual

theorem text_last : ∀ v : ResolvedPiece, v.text (Form.reference.place + 1) = v.value
  | .literal _ => rfl
  | .expression form body r => by
    have := form.place_le
    rw [text, if_pos (by omega), textOf_last body, value]

theorem textOf_last : ∀ vs : List ResolvedPiece, textOf (Form.reference.place + 1) vs = valueOf vs
  | [] => rfl
  | v :: rest => by rw [textOf, valueOf, text_last v, textOf_last rest]

end

end ResolvedPiece

end LedgerBench
