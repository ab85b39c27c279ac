import LedgerBench.Json.Reader
import LedgerBench.Proofs.Json.Spelling
/-!
Values read back from their text.

A value is written as a list of tokens, and these as text. The two ways back are separate: the
scanner knows nothing of values, and the reader nothing of text. What is proved:
  1. `reads`: the reader makes a value of its tokens, in whatever containers it stands.
  2. `spells_compactChars`: the compact text of a value spells its tokens.
  3. `read?_of_spells`: a text that spells the tokens of a value is read as that value, however it
     is spaced, and `read?_compact`: so is the compact one.
-/

namespace LedgerBench

namespace Json

/-- Values whose numbers can be written. -/
inductive WellFormed : Json → Prop where
  | null : WellFormed .null
  | bool (value : Bool) : WellFormed (.bool value)
  | number {n : Number} (h : n.WellFormed) : WellFormed (.number n)
  | string (text : Option String) : WellFormed (.string text)
  | array {elements : List Json} (h : ∀ v ∈ elements, WellFormed v) : WellFormed (.array elements)
  | object {members : List (Option String × Json)} (h : ∀ m ∈ members, WellFormed m.2) :
    WellFormed (.object members)

/-- Items with commas between them. -/
def separated : List (List Token) → List Token
  | [] => []
  | [ts] => ts
  | ts :: rest => ts ++ .comma :: separated rest

mutual

/-- The tokens of a value. -/
def tokens : Json → List Token
  | .null => [.null]
  | .bool value => [.bool value]
  | .number n => [.number n]
  | .string s => [.string s]
  | .array elements => .openArray :: (separated (elementTokens elements) ++ [.closeArray])
  | .object members => .openObject :: (separated (memberTokens members) ++ [.closeObject])

def elementTokens : List Json → List (List Token)
  | [] => []
  | v :: rest => tokens v :: elementTokens rest

def memberTokens : List (Option String × Json) → List (List Token)
  | [] => []
  | (name, v) :: rest => (.string name :: .colon :: tokens v) :: memberTokens rest

end

/-! ## Items and what is between them -/

theorem separated_cons (ts : List Token) (rest : List (List Token)) :
    separated (ts :: rest) = ts ++ rest.flatMap (.comma :: ·) := by
  induction rest generalizing ts with
  | nil => exact (List.append_nil ts).symm
  | cons next rest ih =>
    rw [List.flatMap_cons, List.cons_append, ← ih]
    rfl

theorem commaSeparated_cons (s : List Char) (rest : List (List Char)) :
    commaSeparated (s :: rest) = s ++ rest.flatMap (',' :: ·) := by
  induction rest generalizing s with
  | nil => exact (List.append_nil s).symm
  | cons next rest ih =>
    rw [List.flatMap_cons, List.cons_append, ← ih]
    rfl

/-- The tokens of a member. -/
def tokensOfMember (m : Option String × Json) : List Token := .string m.1 :: .colon :: tokens m.2

/-- The text of a member. -/
def charsOfMember (m : Option String × Json) : List Char :=
  stringLiteral m.1 ++ ':' :: compactChars m.2

theorem elementTokens_eq (elements : List Json) : elementTokens elements = elements.map tokens := by
  induction elements with
  | nil => rfl
  | cons v rest ih => rw [elementTokens, ih, List.map_cons]

theorem memberTokens_eq (members : List (Option String × Json)) :
    memberTokens members = members.map tokensOfMember := by
  induction members with
  | nil => rfl
  | cons m rest ih =>
    rw [memberTokens, ih, List.map_cons]
    rfl

theorem compactElements_eq (elements : List Json) :
    compactElements elements = elements.map compactChars := by
  induction elements with
  | nil => rfl
  | cons v rest ih => rw [compactElements, ih, List.map_cons]

theorem compactMembers_eq (members : List (Option String × Json)) :
    compactMembers members = members.map charsOfMember := by
  induction members with
  | nil => rfl
  | cons m rest ih =>
    rw [compactMembers, ih, List.map_cons]
    rfl

/-! ## Tokens to values -/

/-- Where a value may begin. -/
def Expect.Opens : Expect → Prop
  | .value | .element => True
  | _ => False

/-- The reader makes the value of its tokens, whatever containers it stands inside and whatever
comes after it. -/
def Reads (v : Json) : Prop :=
  ∀ (frames : List Frame) (e : Expect) (rest : List Token), e.Opens →
    (tokens v ++ rest).foldlM Reader.step ⟨frames, e⟩ = rest.foldlM Reader.step ⟨frames, .next v⟩

theorem foldlM_cons_of_step {r next : Reader} {t : Token} (h : r.step t = some next)
    (rest : List Token) :
    (t :: rest).foldlM Reader.step r = rest.foldlM Reader.step next := by
  rw [List.foldlM_cons, h]
  rfl

/-- A token that is a value by itself. -/
theorem reads_of_single {v : Json} {t : Token} (ht : tokens v = [t]) (hclose : t ≠ .closeArray)
    (h : ∀ frames, Reader.beginValue frames t = some ⟨frames, .next v⟩) : Reads v := by
  intro frames e rest he
  have hstep : (⟨frames, e⟩ : Reader).step t = some ⟨frames, .next v⟩ := by
    rw [← h frames]
    cases e with
    | value => rfl
    | element => cases t <;> first | rfl | exact absurd rfl hclose
    | member => exact he.elim
    | name members => exact he.elim
    | colon members name => exact he.elim
    | next value => exact he.elim
  rw [ht]
  exact foldlM_cons_of_step hstep rest

variable {frames : List Frame} {rest : List Token}

/-- From the first element on, the elements of an array are read in turn. -/
theorem foldlM_elements {vs : List Json} (h : ∀ v ∈ vs, Reads v) (seen : List Json) (v : Json) :
    (vs.flatMap (fun w => .comma :: tokens w) ++ .closeArray :: rest).foldlM Reader.step
      ⟨.array seen :: frames, .next v⟩ =
      rest.foldlM Reader.step ⟨frames, .next (.array (seen.reverse ++ v :: vs))⟩ := by
  induction vs generalizing seen v with
  | nil =>
    refine (foldlM_cons_of_step rfl rest).trans ?_
    rw [List.reverse_cons]
  | cons w vs ih =>
    obtain ⟨hw, hvs⟩ := List.forall_mem_cons.mp h
    rw [List.flatMap_cons, List.cons_append, List.cons_append, List.append_assoc]
    refine (foldlM_cons_of_step rfl _).trans ?_
    rw [hw (.array (v :: seen) :: frames) .value _ trivial, ih hvs, List.reverse_cons,
      List.append_assoc]
    rfl

/-- From the first value on, the members of an object are read in turn. -/
theorem foldlM_members {ms : List (Option String × Json)} (h : ∀ m ∈ ms, Reads m.2)
    (seen : List (Option String × Json)) (m : Option String × Json) :
    (ms.flatMap (fun m => .comma :: tokensOfMember m) ++ .closeObject :: rest).foldlM Reader.step
        ⟨.object seen m.1 :: frames, .next m.2⟩ =
      rest.foldlM Reader.step ⟨frames, .next (.object (seen.reverse ++ m :: ms))⟩ := by
  induction ms generalizing seen m with
  | nil =>
    refine (foldlM_cons_of_step rfl rest).trans ?_
    rw [List.reverse_cons]
  | cons w ms ih =>
    obtain ⟨hw, hms⟩ := List.forall_mem_cons.mp h
    rw [List.flatMap_cons, tokensOfMember, List.cons_append, List.cons_append, List.cons_append,
      List.cons_append, List.cons_append, List.cons_append, List.append_assoc]
    refine (foldlM_cons_of_step rfl _).trans
      ((foldlM_cons_of_step rfl _).trans ((foldlM_cons_of_step rfl _).trans ?_))
    rw [hw (.object (m :: seen) w.1 :: frames) .value _ trivial, ih hms, List.reverse_cons,
      List.append_assoc]
    rfl

theorem reads_array {vs : List Json} (h : ∀ v ∈ vs, Reads v) : Reads (.array vs) := by
  intro frames e rest he
  have hopen : (⟨frames, e⟩ : Reader).step .openArray = some ⟨.array [] :: frames, .element⟩ := by
    cases e <;> first | rfl | exact he.elim
  rw [tokens, elementTokens_eq, List.cons_append, List.append_assoc, List.singleton_append]
  refine (foldlM_cons_of_step hopen _).trans ?_
  cases vs with
  | nil => exact foldlM_cons_of_step rfl rest
  | cons v vs =>
    obtain ⟨hv, hvs⟩ := List.forall_mem_cons.mp h
    rw [List.map_cons, separated_cons, List.flatMap_map, List.append_assoc,
      hv (.array [] :: frames) .element _ trivial, foldlM_elements hvs]
    rfl

theorem reads_object {ms : List (Option String × Json)} (h : ∀ m ∈ ms, Reads m.2) :
    Reads (.object ms) := by
  intro frames e rest he
  have hopen : (⟨frames, e⟩ : Reader).step .openObject = some ⟨frames, .member⟩ := by
    cases e <;> first | rfl | exact he.elim
  rw [tokens, memberTokens_eq, List.cons_append, List.append_assoc, List.singleton_append]
  refine (foldlM_cons_of_step hopen _).trans ?_
  cases ms with
  | nil => exact foldlM_cons_of_step rfl rest
  | cons m ms =>
    obtain ⟨hm, hms⟩ := List.forall_mem_cons.mp h
    rw [List.map_cons, separated_cons, List.flatMap_map, tokensOfMember, List.cons_append,
      List.cons_append, List.cons_append, List.cons_append, List.append_assoc]
    -- The first name and its colon, then the value and the other members.
    refine (foldlM_cons_of_step rfl _).trans ((foldlM_cons_of_step rfl _).trans ?_)
    rw [hm (.object [] m.1 :: frames) .value _ trivial, foldlM_members hms]
    rfl

mutual

/-- Every value is read from its tokens. -/
theorem reads : ∀ v : Json, Reads v
  | .null => reads_of_single rfl nofun fun _ => rfl
  | .bool _ => reads_of_single rfl nofun fun _ => rfl
  | .number _ => reads_of_single rfl nofun fun _ => rfl
  | .string _ => reads_of_single rfl nofun fun _ => rfl
  | .array elements => reads_array (reads_elements elements)
  | .object members => reads_object (reads_members members)

theorem reads_elements : ∀ (elements : List Json), ∀ v ∈ elements, Reads v
  | [] => nofun
  | v :: rest => List.forall_mem_cons.mpr ⟨reads v, reads_elements rest⟩

theorem reads_members : ∀ (members : List (Option String × Json)), ∀ m ∈ members, Reads m.2
  | [] => nofun
  | (_, v) :: rest => List.forall_mem_cons.mpr ⟨reads v, reads_members rest⟩

end

/-- The reader makes a value of its tokens. -/
theorem ofTokens?_tokens (v : Json) : ofTokens? v.tokens = some v := by
  have hread := reads v [] .value [] trivial
  rw [List.append_nil] at hread
  unfold ofTokens?
  rw [show Reader.initial = ⟨[], .value⟩ from rfl, hread]
  rfl

/-- A text that spells the tokens of a value is read as that value. -/
theorem read?_of_spells {v : Json} {text : List Char} (hs : Spells text v.tokens) :
    read? text = some v := by
  rw [read?, Token.scan_of_spells hs, Option.bind_some, ofTokens?_tokens]

/-! ## Values to text -/

/-- Every token ends where the text begins. -/
def EndsTokens (text : List Char) : Prop :=
  ∀ c ∈ text.head?, isNumberChar c = false ∧ c.isLower = false

theorem endsTokens_cons {c : Char} (hnumber : isNumberChar c = false) (hlower : c.isLower = false)
    (text : List Char) :
    EndsTokens (c :: text) := by
  intro d hd
  obtain rfl : c = d := Option.some.inj hd
  exact ⟨hnumber, hlower⟩

theorem EndsTokens.endsBefore {text : List Char} (h : EndsTokens text) (t : Token) :
    t.EndsBefore text := by
  cases t <;> first | trivial | exact fun c hc => (h c hc).1 | exact fun c hc => (h c hc).2

variable {text chars : List Char} {ts tokens : List Token}

/-- Characters that spell some tokens in front of any text that ends them. -/
def Writes (chars : List Char) (tokens : List Token) : Prop :=
  ∀ (text : List Char) (ts : List Token), EndsTokens text → Spells text ts →
    Spells (chars ++ text) (tokens ++ ts)

theorem writes_token {t : Token} (h : t.WellFormed) : Writes t.chars [t] :=
  fun _ _ hends hs => .token h (hends.endsBefore t) hs

theorem spells_mark {c : Char} (t : Token) (hchars : t.chars = [c]) (h : t.WellFormed)
    (hends : t.EndsBefore text) (hs : Spells text ts) : Spells (c :: text) (t :: ts) := by
  have htoken := Spells.token h hends hs
  rwa [hchars] at htoken

/-- A name and a colon in front of a value. -/
theorem writes_member (name : Option String) (h : Writes chars tokens) :
    Writes (stringLiteral name ++ ':' :: chars) (.string name :: .colon :: tokens) := by
  intro text ts hends hs
  have hname := Spells.token (t := .string name) trivial trivial
    (spells_mark .colon rfl trivial trivial (h _ _ hends hs))
  simpa only [Token.chars, List.append_assoc, List.cons_append] using hname

/-- Items after the first one, each behind a comma. -/
theorem spells_items {items : List (List Char × List Token)} (h : ∀ i ∈ items, Writes i.1 i.2)
    (hends : EndsTokens text) (hs : Spells text ts) :
    Spells (items.flatMap (fun i => ',' :: i.1) ++ text)
      (items.flatMap (fun i => .comma :: i.2) ++ ts) ∧
      EndsTokens (items.flatMap (fun i => ',' :: i.1) ++ text) := by
  induction items with
  | nil => exact ⟨hs, hends⟩
  | cons i items ih =>
    obtain ⟨hi, hitems⟩ := List.forall_mem_cons.mp h
    obtain ⟨hrest, hmore⟩ := ih hitems
    simp only [List.flatMap_cons, List.cons_append, List.append_assoc]
    exact ⟨spells_mark .comma rfl trivial trivial (hi _ _ hmore hrest),
      endsTokens_cons (by decide) (by decide) _⟩

/-- Items with commas between them, in brackets that are tokens by themselves. -/
theorem writes_bracketed {items : List (List Char × List Token)} (h : ∀ i ∈ items, Writes i.1 i.2)
    {c d : Char} (opening closing : Token) (hopening : opening.chars = [c])
    (hclosing : closing.chars = [d]) (hwell : opening.WellFormed ∧ closing.WellFormed)
    (hfree : ∀ rest, opening.EndsBefore rest ∧ closing.EndsBefore rest)
    (hnumber : isNumberChar d = false) (hlower : d.isLower = false) :
    Writes (c :: commaSeparated (items.map Prod.fst) ++ [d])
      (opening :: (separated (items.map Prod.snd) ++ [closing])) := by
  intro text ts hends hs
  have hclose : Spells (d :: text) (closing :: ts) :=
    spells_mark closing hclosing hwell.2 (hfree text).2 hs
  have hafter : EndsTokens (d :: text) := endsTokens_cons hnumber hlower text
  simp only [List.cons_append, List.append_assoc, List.nil_append]
  refine spells_mark opening hopening hwell.1 (hfree _).1 ?_
  cases items with
  | nil => exact hclose
  | cons i items =>
    obtain ⟨hi, hitems⟩ := List.forall_mem_cons.mp h
    obtain ⟨hrest, hmore⟩ := spells_items hitems hafter hclose
    simp only [List.map_cons, commaSeparated_cons, separated_cons, List.flatMap_map,
      List.append_assoc]
    exact hi _ _ hmore hrest

/-- The text of a well-formed value spells its tokens. -/
theorem writes_of_wellFormed {v : Json} (h : v.WellFormed) : Writes (compactChars v) v.tokens := by
  induction h with
  | null => exact writes_token (t := .null) trivial
  | bool value =>
    cases value with
    | true => exact writes_token (t := .bool true) trivial
    | false => exact writes_token (t := .bool false) trivial
  | number h => exact writes_token (t := .number _) h
  | string text => exact writes_token (t := .string text) trivial
  | @array vs _ ih =>
    have hitems : ∀ i ∈ vs.map fun v => (compactChars v, v.tokens), Writes i.1 i.2 := by
      intro i hi
      obtain ⟨v, hv, rfl⟩ := List.mem_map.mp hi
      exact ih v hv
    have hwrites := writes_bracketed hitems .openArray .closeArray rfl rfl ⟨trivial, trivial⟩
      (fun _ => ⟨trivial, trivial⟩)
      (by decide) (by decide)
    simp only [List.map_map, Function.comp_def, ← compactElements_eq, ← elementTokens_eq] at hwrites
    exact hwrites
  | @object ms _ ih =>
    have hitems : ∀ i ∈ ms.map fun m => (charsOfMember m, tokensOfMember m), Writes i.1 i.2 := by
      intro i hi
      obtain ⟨m, hm, rfl⟩ := List.mem_map.mp hi
      exact writes_member m.1 (ih m hm)
    have hwrites := writes_bracketed hitems .openObject .closeObject rfl rfl ⟨trivial, trivial⟩
      (fun _ => ⟨trivial, trivial⟩)
      (by decide) (by decide)
    simp only [List.map_map, Function.comp_def, ← compactMembers_eq, ← memberTokens_eq] at hwrites
    exact hwrites

/-- The compact text of a value spells its tokens. -/
theorem spells_compactChars {v : Json} (h : v.WellFormed) : Spells (compactChars v) v.tokens := by
  have hs : Spells (compactChars v ++ []) (v.tokens ++ []) :=
    writes_of_wellFormed h [] [] (fun _ hc => by cases hc) .nil
  rwa [List.append_nil, List.append_nil] at hs

theorem spells_compact {v : Json} (h : v.WellFormed) : Spells v.compact.toList v.tokens := by
  rw [compact, String.toList_ofList]
  exact spells_compactChars h

/-- A value is read back from its compact text. -/
theorem read?_compact {v : Json} (h : v.WellFormed) : read? v.compact.toList = some v :=
  read?_of_spells (spells_compact h)

end Json

end LedgerBench
