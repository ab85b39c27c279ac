import LedgerBench.Proofs.Json.RoundTrip
/-!
Which tokens are read as a value.

The reader is a machine with a stack, and at any time its state tells what it has read: an open
container the items that are finished, and what it expects how much of the next one there is. What
is proved:
  1. `Reader.read_of_step`: a step adds its token to what was read.
  2. `Reader.read_of_foldlM`: so does a run, and a reader that began with nothing has read just the
     tokens it was given.
  3. `read?_eq_some_iff`: a text is read as a value where its tokens are those of the value, and
     nowhere else.
-/

namespace LedgerBench

namespace Json

/-! ## What a reader has read -/

/-- Items with a comma behind each. -/
def followed (items : List (List Token)) : List Token := items.flatMap (· ++ [.comma])

theorem separated_concat (items : List (List Token)) (item : List Token) :
    separated (items ++ [item]) = followed items ++ item := by
  induction items with
  | nil => rfl
  | cons first rest ih =>
    have hcons : separated (first :: (rest ++ [item])) =
        first ++ .comma :: separated (rest ++ [item]) := by
      cases rest <;> rfl
    rw [List.cons_append, hcons, ih]
    simp [followed]

/-- What was read of an object whose finished members are given in reverse, each with its comma. -/
def tokensOfMembers (members : List (Option String × Json)) : List Token :=
  .openObject :: followed (members.reverse.map tokensOfMember)

/-- What was read of an open container before the value that it waits for. -/
def Frame.read : Frame → List Token
  | .array elements => .openArray :: followed (elements.reverse.map Json.tokens)
  | .object members name => tokensOfMembers members ++ [.string name, .colon]

/-- What was read inside the innermost open container, or of an object whose next member has no
value yet. -/
def Expect.read : Expect → List Token
  | .value | .element => []
  | .member => [.openObject]
  | .name members => tokensOfMembers members
  | .colon members key => tokensOfMembers members ++ [.string key]
  | .next v => v.tokens

namespace Reader

/-- All that a reader has read. -/
def read (r : Reader) : List Token := r.frames.reverse.flatMap Frame.read ++ r.expect.read

/-- Where an array may end at once, nothing of it was read. -/
def Sound (r : Reader) : Prop := r.expect = .element → ∃ outer, r.frames = .array [] :: outer

variable {r next : Reader} {frames : List Frame} {t : Token}

theorem sound_of_ne {e : Expect} (h : e ≠ .element) : Sound ⟨frames, e⟩ := fun he => absurd he h

theorem read_of_beginValue (h : beginValue frames t = some next) :
    next.Sound ∧ next.read = frames.reverse.flatMap Frame.read ++ [t] := by
  cases t with
  | openArray =>
    obtain rfl := Option.some.inj h
    refine ⟨fun _ => ⟨frames, rfl⟩, ?_⟩
    simp [read, Frame.read, Expect.read, followed]
  | openObject | null | bool _ | number _ | string _ =>
    obtain rfl := Option.some.inj h
    exact ⟨sound_of_ne (by simp), rfl⟩
  | closeObject | closeArray | colon | comma => cases h

/-- A step adds its token to what was read. -/
theorem read_of_step (hr : r.Sound) (h : r.step t = some next) :
    next.Sound ∧ next.read = r.read ++ [t] := by
  obtain ⟨frames, expect⟩ := r
  cases expect with
  | value =>
    obtain ⟨hsound, hread⟩ := read_of_beginValue h
    exact ⟨hsound, by rw [hread]; simp [read, Expect.read]⟩
  | element =>
    obtain ⟨outer, rfl⟩ := hr rfl
    by_cases hclose : t = .closeArray
    · subst hclose
      obtain rfl := Option.some.inj h
      refine ⟨sound_of_ne (by simp), ?_⟩
      simp [read, Frame.read, Expect.read, followed, tokens, elementTokens, separated]
    · have hbegin : beginValue (.array [] :: outer) t = some next := by
        rw [← h]
        cases t <;> first | rfl | exact absurd rfl hclose
      obtain ⟨hsound, hread⟩ := read_of_beginValue hbegin
      exact ⟨hsound, by rw [hread]; simp [read, Expect.read]⟩
  | member =>
    cases t with
    | closeObject =>
      obtain rfl := Option.some.inj h
      refine ⟨sound_of_ne (by simp), ?_⟩
      simp [read, Expect.read, tokens, memberTokens, separated]
    | string name =>
      obtain rfl := Option.some.inj h
      refine ⟨sound_of_ne (by simp), ?_⟩
      simp [read, Expect.read, tokensOfMembers, followed]
    | _ => cases h
  | name members =>
    cases t with
    | string name =>
      obtain rfl := Option.some.inj h
      refine ⟨sound_of_ne (by simp), ?_⟩
      simp [read, Expect.read]
    | _ => cases h
  | colon members name =>
    cases t with
    | colon =>
      obtain rfl := Option.some.inj h
      refine ⟨sound_of_ne (by simp), ?_⟩
      simp [read, Expect.read, Frame.read]
    | _ => cases h
  | next v =>
    cases t with
    | comma =>
      rcases frames with _ | ⟨elements | ⟨members, name⟩, outer⟩
      · cases h
      · obtain rfl := Option.some.inj h
        refine ⟨sound_of_ne (by simp), ?_⟩
        simp [read, Expect.read, Frame.read, followed]
      · obtain rfl := Option.some.inj h
        refine ⟨sound_of_ne (by simp), ?_⟩
        simp [read, Expect.read, Frame.read, tokensOfMembers, tokensOfMember, followed]
    | closeArray =>
      rcases frames with _ | ⟨elements | ⟨members, name⟩, outer⟩
      · cases h
      · obtain rfl := Option.some.inj h
        refine ⟨sound_of_ne (by simp), ?_⟩
        simp [read, Expect.read, Frame.read, tokens, elementTokens_eq, separated_concat]
      · cases h
    | closeObject =>
      rcases frames with _ | ⟨elements | ⟨members, name⟩, outer⟩
      · cases h
      · cases h
      · obtain rfl := Option.some.inj h
        refine ⟨sound_of_ne (by simp), ?_⟩
        simp [read, Expect.read, Frame.read, tokens, memberTokens_eq, separated_concat,
          tokensOfMembers, tokensOfMember]
    | _ => cases h

/-- A run adds its tokens to what was read. -/
theorem read_of_foldlM {tokens : List Token} (hr : r.Sound) (h : tokens.foldlM step r = some next) :
    next.read = r.read ++ tokens := by
  induction tokens generalizing r with
  | nil =>
    obtain rfl := Option.some.inj h
    exact (List.append_nil r.read).symm
  | cons t tokens ih =>
    rw [List.foldlM_cons] at h
    obtain ⟨mid, hstep, hrest⟩ := Option.bind_eq_some_iff.mp h
    obtain ⟨hmid, hread⟩ := read_of_step hr hstep
    rw [ih hmid hrest, hread, List.append_assoc, List.singleton_append]

end Reader

/-! ## Tokens and values -/

/-- Tokens are read as a value where they are the tokens of the value, and nowhere else. -/
theorem ofTokens?_eq_some_iff {ts : List Token} {v : Json} :
    ofTokens? ts = some v ↔ ts = v.tokens := by
  constructor
  · intro h
    obtain ⟨⟨frames, expect⟩, hfold, hresult⟩ := Option.bind_eq_some_iff.mp h
    have hread := Reader.read_of_foldlM (r := .initial) (fun h => by cases h) hfold
    unfold Reader.result? at hresult
    split at hresult
    case h_1 hframes hexpect =>
      obtain rfl := Option.some.inj hresult
      obtain rfl : frames = [] := hframes
      obtain rfl := hexpect
      exact hread.symm
    case h_2 => cases hresult
  · rintro rfl
    exact ofTokens?_tokens v

/-- A text is read as a value where its tokens are those of the value, and nowhere else. -/
theorem read?_eq_some_iff {text : List Char} {v : Json} :
    read? text = some v ↔ Token.scan text = some v.tokens := by
  unfold read?
  simp only [Option.bind_eq_some_iff, ofTokens?_eq_some_iff, exists_eq_right]

end Json

end LedgerBench
