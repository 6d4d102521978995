/-
Whole numbers in the place of names.

A name in a sentence is a run of its own, since neither numbers nor names stand beside it.  Where a
variable that holds a whole number is written for it, there is a number, and what stands around it
could not go on a number any more than a name.  So the sentence stays one and keeps its tree, but
for the leaves that are now numbers.

A number can hold runs as well, and most of them start with a digit.  Behind the point a power of
ten may be one that could be a variable, as `e5` in `1.e5`.  Such a variable breaks the number, and
a variable with the name of a function breaks the call.
-/
import BareBones.Proofs.Arithmetic.Evaluation
import BareBones.Proofs.Substitution

namespace BareBones.Arithmetic

open Name (isNameChar)
open Text (HasRun)

variable {c : Char} {cs l : List Char} {t : Token} {ts : List Token} {env : Environment}

/-! ### The characters of words -/

theorem val_lt_of_isAlphanum (h : c.isAlphanum = true) : c.val < 128 := by
  delta Char.isAlphanum Char.isAlpha Char.isUpper Char.isLower Char.isDigit at h
  grind

theorem isNameChar_of_continuesName (h : continuesName c = true) : isNameChar c = true := by
  simp only [continuesName, Bool.or_eq_true] at h
  rcases h with h | h
  · have hascii := val_lt_of_isAlphanum h
    simp only [Char.isAlphanum, Bool.or_eq_true] at h
    simp only [isNameChar, Text.isLetter_of_isAlpha hascii, Text.isNumeral_of_ascii hascii,
      Bool.or_eq_true]
    exact Or.inl h
  · simp [isNameChar, h]

theorem continuesName_of_startsName (h : startsName c = true) : continuesName c = true := by
  simp only [startsName, Bool.or_eq_true] at h
  rcases h with h | h
  · simp [continuesName, Char.isAlphanum, h]
  · simp [continuesName, h]

theorem isNameChar_of_sign? (h : sign? c = some t) : isNameChar c = false := by
  unfold sign? at h
  split at h
  case h_13 => cases h
  all_goals decide +kernel

theorem isNameChar_of_isBlank (h : isBlank c = true) : isNameChar c = false := by
  simp only [isBlank, Bool.or_eq_true, beq_iff_eq] at h
  rcases h with ((rfl | rfl) | rfl) | rfl <;> decide +kernel

/-- A name is made of name characters. -/
theorem IsName.names (h : IsName l) : ∀ d ∈ l, isNameChar d = true := by
  cases h with
  | mk hc hcs =>
      intro d hd
      rcases List.mem_cons.1 hd with rfl | hd
      · exact isNameChar_of_continuesName (continuesName_of_startsName hc)
      · exact isNameChar_of_continuesName (hcs d hd)

theorem IsName.ne_nil (h : IsName l) : l ≠ [] := by
  cases h
  exact List.cons_ne_nil _ _

/-- Behind a word, a text goes on with a character that no run could take. -/
theorem Spells.breaks_run (h : Spells cs ts) (hts : ∀ t ∈ ts.head?, t.isWord = false) :
    Breaks isNameChar cs := by
  cases h with
  | nil => exact breaks_nil
  | blank hc h => exact breaks_cons (isNameChar_of_isBlank hc)
  | lexeme hl h =>
      obtain ⟨c, rfl, hsign⟩ := hl.sign (hts _ rfl)
      exact breaks_cons (isNameChar_of_sign? hsign)

/-! ### Runs in numbers -/

theorem isNameChar_of_isDigit (h : c.isDigit = true) : isNameChar c = true :=
  isNameChar_of_continuesName (by simp [continuesName, Char.isAlphanum, h])

/-- Can the name of a variable start with the character? -/
def startsVariable (c : Char) : Bool :=
  Text.isLetter c || c == '_'

theorem startsVariable_of_checkVariable (h : Name.checkVariable (String.ofList (c :: cs)) = .ok ()) :
    startsVariable c = true := by
  obtain ⟨-, d, ds, heq, hfirst, -⟩ := Name.of_checkVariable h
  rw [String.toList_ofList] at heq
  rw [(List.cons.inj heq).1]
  exact hfirst

theorem startsVariable_of_isDigit (h : c.isDigit = true) : startsVariable c = false := by
  have hascii : c.val < 128 := val_lt_of_isAlphanum (by simp [Char.isAlphanum, h])
  have hname := startsName_eq_false (c := c) (by simp [continuesDigits, h])
  rw [startsVariable, Text.isLetter_of_isAlpha hascii]
  exact hname

theorem IsMantissa.startsVariable {m : List Char} (hm : IsMantissa m) :
    ∀ d ∈ m, startsVariable d = false := by
  have hpoint : Arithmetic.startsVariable '.' = false := by decide +kernel
  intro d hd
  cases hm with
  | whole hne hds => exact startsVariable_of_isDigit (hds d hd)
  | pointed hne hds hes =>
      rcases List.mem_append.1 hd with hd | hd
      · exact startsVariable_of_isDigit (hds d hd)
      · rcases List.mem_cons.1 hd with rfl | hd
        · exact hpoint
        · exact startsVariable_of_isDigit (hes d hd)
  | part hne hes =>
      rcases List.mem_cons.1 hd with rfl | hd
      · exact hpoint
      · exact startsVariable_of_isDigit (hes d hd)

/-- Digits that end in a run are not followed by another one. -/
theorem Digits.not_breaks {ds : List Char} (hds : Digits ds) (hne : ds ≠ []) :
    ¬ Breaks isNameChar ds.reverse := by
  intro hbreaks
  have hlast := List.getLast_mem hne
  have hhead := hbreaks (ds.getLast hne) (by
    rw [List.head?_reverse, List.getLast?_eq_some_getLast hne]
    rfl)
  rw [isNameChar_of_isDigit (hds _ hlast)] at hhead
  cases hhead

theorem IsMantissa.point_of_breaks {m : List Char} (hm : IsMantissa m)
    (hbreaks : Breaks isNameChar m.reverse) : ∃ ds, m = ds ++ ['.'] := by
  cases hm with
  | whole hne hds => exact absurd hbreaks (hds.not_breaks hne)
  | @pointed ds es hne hds hes =>
      cases es with
      | nil => exact ⟨ds, rfl⟩
      | cons d es =>
          refine absurd ?_ (hes.not_breaks (List.cons_ne_nil d es))
          intro c hc
          refine hbreaks c ?_
          rw [List.reverse_append, List.reverse_cons, List.append_assoc]
          rw [List.head?_append, Option.mem_def.1 hc]
          rfl
  | @part es hne hes =>
      refine absurd ?_ (hes.not_breaks hne)
      intro c hc
      refine hbreaks c ?_
      rw [List.reverse_cons, List.head?_append, Option.mem_def.1 hc]
      rfl

theorem IsExponent.tail_startsVariable {x : List Char} (hx : IsExponent x) :
    ∀ d ∈ x.tail, startsVariable d = false := by
  intro d hd
  cases hx with
  | none => cases hd
  | power he hsign hne hds =>
      rcases List.mem_append.1 hd with hd | hd
      · cases hsign with
        | none => cases hd
        | plus =>
            rw [List.mem_singleton.1 hd]
            decide +kernel
        | minus =>
            rw [List.mem_singleton.1 hd]
            decide +kernel
      · exact startsVariable_of_isDigit (hds d hd)

/-- A run of a number that could be a variable stands right behind the point. -/
theorem IsNumber.run_behind_point {r : List Char} (hl : IsNumber l) (hr : HasRun l r)
    (hname : Name.checkVariable (String.ofList r) = .ok ()) :
    ∃ ds behind, l = ds ++ '.' :: (r ++ behind) := by
  obtain ⟨before, behind, hcut, hbefore, -⟩ := hr.alone
  obtain ⟨c, r, rfl⟩ := List.exists_cons_of_ne_nil hr.ne_nil
  have hstarts := startsVariable_of_checkVariable hname
  cases hl with
  | @mk m x hm hx =>
      have hm' : c ∉ m := fun hmem => by
        rw [hm.startsVariable c hmem] at hstarts
        cases hstarts
      have hx' : c ∉ x.tail := fun hmem => by
        rw [hx.tail_startsVariable c hmem] at hstarts
        cases hstarts
      -- So the run starts where the power of ten does.
      obtain rfl : before = m := by
        rcases List.append_eq_append_iff.1 hcut with ⟨as, hmore, hx⟩ | ⟨bs, hless, hrun⟩
        · cases as with
          | nil => simpa using hmore
          | cons d as =>
              rw [hx] at hx'
              exact absurd (by simp) hx'
        · cases bs with
          | nil => simpa using hless.symm
          | cons d bs =>
              obtain ⟨rfl, -⟩ := List.cons.inj hrun
              rw [hless] at hm'
              exact absurd (by simp) hm'
      obtain ⟨ds, rfl⟩ := hm.point_of_breaks hbefore
      refine ⟨ds, behind, ?_⟩
      rw [hcut]
      simp

/-! ### Numbers for variables -/

/-- What is written for a lexeme: the text of the value for a name that is bound, unless it is a
word of arithmetic. -/
def Token.paste (env : Environment) : Token → Token
  | .name x =>
    match env.pasted? x with
    | some text => .number text
    | none => .name x
  | t => t

mutual

/-- The tree with a number for each leaf that is a bound name and no word of arithmetic. -/
def Expr.paste (env : Environment) : Expr → Expr
  | .number text => .number text
  | .name x =>
    match env.pasted? x with
    | some text => .number text
    | none => .name x
  | .call f args => .call f (pasteAll env args)
  | .negate e => .negate (e.paste env)
  | .keep e => .keep (e.paste env)
  | .binary op a b => .binary op (a.paste env) (b.paste env)

/-- The trees with numbers for bound names. -/
def pasteAll (env : Environment) : List Expr → List Expr
  | [] => []
  | e :: es => e.paste env :: pasteAll env es

end

mutual

/-- The names of functions that the tree calls. -/
def Expr.callNames : Expr → List String
  | .number _ | .name _ => []
  | .call f args => f :: callNamesAll args
  | .negate e | .keep e => e.callNames
  | .binary _ a b => a.callNames ++ b.callNames

/-- The names of functions that the trees call. -/
def callNamesAll : List Expr → List String
  | [] => []
  | e :: es => e.callNames ++ callNamesAll es

end

theorem paste_name_of_unbound {f : String} (hf : env.get? f = none) :
    (Token.name f).paste env = .name f := by
  simp [Token.paste, Environment.pasted?, hf]

theorem paste_of_not_isWord (h : t.isWord = false) : t.paste env = t := by
  cases t with
  | name x => cases h
  | _ => rfl

theorem isPrimary_paste_name (env : Environment) (x : String) :
    IsPrimary [(Token.name x).paste env] ((Expr.name x).paste env) := by
  cases hpasted : env.pasted? x with
  | none =>
      simp only [Token.paste, Expr.paste, hpasted]
      exact .name x
  | some text =>
      simp only [Token.paste, Expr.paste, hpasted]
      exact .number text

/-- The names in the list do not name variables. -/
def Unbound (env : Environment) (names : List String) : Prop :=
  ∀ f ∈ names, env.get? f = none

theorem Unbound.left {fs gs : List String} (h : Unbound env (fs ++ gs)) : Unbound env fs :=
  fun f hf => h f (List.mem_append_left gs hf)

theorem Unbound.right {fs gs : List String} (h : Unbound env (fs ++ gs)) : Unbound env gs :=
  fun f hf => h f (List.mem_append_right fs hf)

mutual

theorem IsSum.paste : ∀ {ts : List Token} {e : Expr}, IsSum ts e → Unbound env e.callNames →
    IsSum (ts.map (Token.paste env)) (e.paste env)
  | _, _, .product h, hcalls => .product (h.paste hcalls)
  | _, _, .step h ht h', hcalls => by
      rw [List.map_append, List.map_cons, paste_of_not_isWord ht.tidy.1]
      exact .step (h.paste hcalls.left) ht (h'.paste hcalls.right)

theorem IsProduct.paste : ∀ {ts : List Token} {e : Expr}, IsProduct ts e →
    Unbound env e.callNames → IsProduct (ts.map (Token.paste env)) (e.paste env)
  | _, _, .signed h, hcalls => .signed (h.paste hcalls)
  | _, _, .step h ht h', hcalls => by
      rw [List.map_append, List.map_cons, paste_of_not_isWord ht.tidy.1]
      exact .step (h.paste hcalls.left) ht (h'.paste hcalls.right)

theorem IsSigned.paste : ∀ {ts : List Token} {e : Expr}, IsSigned ts e →
    Unbound env e.callNames → IsSigned (ts.map (Token.paste env)) (e.paste env)
  | _, _, .minus h, hcalls => .minus (h.paste hcalls)
  | _, _, .plus h, hcalls => .plus (h.paste hcalls)
  | _, _, .power h, hcalls => .power (h.paste hcalls)

theorem IsPower.paste : ∀ {ts : List Token} {e : Expr}, IsPower ts e → Unbound env e.callNames →
    IsPower (ts.map (Token.paste env)) (e.paste env)
  | _, _, .primary h, hcalls => .primary (h.paste hcalls)
  | _, _, .raise h h', hcalls => by
      rw [List.map_append, List.map_cons]
      exact .raise (h.paste hcalls.left) (h'.paste hcalls.right)

theorem IsPrimary.paste : ∀ {ts : List Token} {e : Expr}, IsPrimary ts e →
    Unbound env e.callNames → IsPrimary (ts.map (Token.paste env)) (e.paste env)
  | _, _, .number text, _ => .number text
  | _, _, .name x, _ => isPrimary_paste_name env x
  | _, _, .callNone f, hcalls => by
      have hf := paste_name_of_unbound (hcalls f List.mem_cons_self)
      rw [List.map_cons, hf]
      exact .callNone f
  | _, _, .call f h, hcalls => by
      have hf := paste_name_of_unbound (hcalls f List.mem_cons_self)
      rw [List.map_cons, List.map_cons, List.map_append, hf]
      exact .call f (h.paste fun g hg => hcalls g (List.mem_cons_of_mem f hg))
  | _, _, .paren h, hcalls => by
      rw [List.map_cons, List.map_append]
      exact .paren (h.paste hcalls)

theorem IsArguments.paste : ∀ {ts : List Token} {es : List Expr}, IsArguments ts es →
    Unbound env (callNamesAll es) → IsArguments (ts.map (Token.paste env)) (pasteAll env es)
  | _, _, .one h, hcalls => .one (h.paste hcalls.left)
  | _, _, .more h h', hcalls => by
      rw [List.map_append, List.map_cons]
      exact .more (h.paste hcalls.left) (h'.paste hcalls.right)

end

/-! ### Texts -/

/-- The text of a whole number is a number of an expression. -/
theorem isNumber_text_int (n : UInt64) : IsNumber (Value.int n).text.toList := by
  have htext : (Value.int n).text.toList = Nat.toDigits 10 n.toNat := by
    rw [Value.text, Nat.toString_eq_ofList_toDigits, String.toList_ofList]
  have hdigits : Digits (Nat.toDigits 10 n.toNat) :=
    fun _ => Nat.isDigit_of_mem_toDigits (by decide) (by decide)
  rw [htext, ← List.append_nil (Nat.toDigits 10 n.toNat)]
  exact .mk (.whole Nat.toDigits_ne_nil hdigits) .none

/-- What is written for a name is written for its lexeme. -/
theorem writes_paste_name (hints : ∀ x v, env.get? x = some v → ∃ n, v = .int n) (hl : IsName l) :
    Writes (substituteFrom env [] l) ((Token.name (String.ofList l)).paste env) := by
  rw [substituteFrom_run hl.ne_nil hl.names, substituteRun_eq]
  unfold Token.paste
  dsimp only
  cases hpasted : env.pasted? (String.ofList l) with
  | none => exact .name hl
  | some text =>
      obtain ⟨v, hv, rfl⟩ := exists_of_pasted? hpasted
      obtain ⟨n, rfl⟩ := hints _ v hv
      have hnumber := Writes.number (isNumber_text_int n)
      rw [String.ofList_toList] at hnumber
      exact hnumber

/-- No run of a number in the lexemes names a variable. -/
def NumbersFree (env : Environment) (ts : List Token) : Prop :=
  ∀ text, .number text ∈ ts → ∀ r, HasRun text.toList r → env.get? (String.ofList r) = none

theorem Spells.paste (hints : ∀ x v, env.get? x = some v → ∃ n, v = .int n)
    (h : Spells cs ts) : Tidy ts → NumbersFree env ts →
    Spells (substituteFrom env [] cs) (ts.map (Token.paste env)) := by
  induction h with
  | nil =>
      intro _ _
      exact .nil
  | blank hc h ih =>
      intro htidy hnumbers
      rw [substituteFrom_of_not_name (isNameChar_of_isBlank hc)]
      exact .blank hc (ih htidy hnumbers)
  | @lexeme l cs t ts hl h ih =>
      intro htidy hnumbers
      have hrest := ih htidy.tail fun text hmem => hnumbers text (List.mem_cons_of_mem t hmem)
      by_cases hw : t.isWord = true
      · rw [substituteFrom_append_of_breaks (h.breaks_run (htidy.next hw)), List.map_cons]
        refine .lexeme ?_ hrest
        cases hl with
        | number hl =>
            have hfree := hnumbers _ List.mem_cons_self
            rw [String.toList_ofList] at hfree
            rw [substituteFrom_eq_self l hfree]
            exact .number hl
        | name hl => exact writes_paste_name hints hl
        | _ => cases hw
      · obtain ⟨c, rfl, hsign⟩ := hl.sign (by simpa using hw)
        rw [List.singleton_append, substituteFrom_of_not_name (isNameChar_of_sign? hsign),
          List.map_cons]
        rw [paste_of_not_isWord (by simpa using hw)]
        exact .lexeme hl hrest

/-- A sentence of which the variables hold whole numbers stays one when the numbers are written for
the variables.  Its tree has the digits of the value in each leaf that was a bound name and is no
word of arithmetic, and is otherwise the same.  This asks that no function of the sentence and no
run inside one of its numbers names a variable, and only a run right behind a point could. -/
theorem substitute_keeps_tree (env : Environment) (text : String) (e : Expr)
    (htext : Sentence text e) (hints : ∀ x v, env.get? x = some v → ∃ n, v = .int n)
    (hcalls : ∀ f ∈ e.callNames, env.get? f = none)
    (hnumbers : ∀ number, .number number ∈ tokens (lex text.toList) →
      ∀ r, HasRun number.toList r → env.get? (String.ofList r) = none) :
    Sentence (substitute env text) (e.paste env) ∧
    ∀ number, .number number ∈ tokens (lex text.toList) → ∀ r, HasRun number.toList r →
      Name.checkVariable (String.ofList r) = .ok () →
      ∃ ds behind, number.toList = ds ++ '.' :: (r ++ behind) := by
  have hsum := sentence_iff.1 htext
  have hspells := spells_lexFrom text.toList 0 hsum.tidy.known
  refine ⟨⟨(tokens (lex text.toList)).map (Token.paste env), ?_, hsum.paste hcalls⟩, ?_⟩
  · rw [substitute, String.toList_ofList]
    exact hspells.paste hints hsum.tidy hnumbers
  · intro number hmem r hr hname
    exact (hspells.isNumber hmem).run_behind_point hr hname

/-- The largest whole number next to a sign, and a power of ten behind a point that is no
variable. -/
theorem substitute_keeps_tree_next_to_signs :
    let env : Environment := NameMap.ofList [("x", .int 18446744073709551615), ("y", .int 0)]
    let e : Expr := .binary .subtract (.name "x") (.call "max" [.name "y", .number "1.e5"])
    Sentence "x-max(y,1.e5)" e ∧
      (∀ x v, env.get? x = some v → ∃ n, v = .int n) ∧
      (∀ f ∈ e.callNames, env.get? f = none) ∧
      (∀ number, .number number ∈ tokens (lex "x-max(y,1.e5)".toList) →
        ∀ r, HasRun number.toList r → env.get? (String.ofList r) = none) ∧
      Sentence (substitute env "x-max(y,1.e5)")
        (.binary .subtract (.number "18446744073709551615")
          (.call "max" [.number "0", .number "1.e5"])) := by
  intro env e
  have hget : ∀ x, env.get? x = if x = "y" then some (.int 0)
      else if x = "x" then some (.int 18446744073709551615) else none := by
    intro x
    simp only [env, NameMap.ofList, List.foldl_cons, List.foldl_nil, NameMap.get?_insert,
      NameMap.get?_empty]
  have hints : ∀ x v, env.get? x = some v → ∃ n, v = .int n := by
    intro x v hv
    rw [hget] at hv
    split at hv
    · cases hv
      exact ⟨_, rfl⟩
    · split at hv
      · cases hv
        exact ⟨_, rfl⟩
      · cases hv
  have hcalls : ∀ f ∈ e.callNames, env.get? f = none := by
    intro f hf
    have hmax : f = "max" := by simpa [e, Expr.callNames, callNamesAll] using hf
    rw [hget, hmax]
    decide
  have htokens : tokens (lex "x-max(y,1.e5)".toList) =
      [.name "x", .minus, .name "max", .leftParen, .name "y", .comma, .number "1.e5",
        .rightParen] := by
    have htext : "x-max(y,1.e5)".toList =
        ['x', '-', 'm', 'a', 'x', '(', 'y', ',', '1', '.', 'e', '5', ')'] := String.toList_ofList
    rw [htext]
    decide
  have hsentence : Sentence "x-max(y,1.e5)" e := by
    have hargs : IsArguments [.name "y", .comma, .number "1.e5"] [.name "y", .number "1.e5"] :=
      .more (.product (.signed (.power (.primary (.name "y")))))
        (.one (.product (.signed (.power (.primary (.number "1.e5"))))))
    rw [sentence_iff, htokens]
    exact .step (.product (.signed (.power (.primary (.name "x"))))) .minus
      (.signed (.power (.primary (.call "max" hargs))))
  have hnumbers : ∀ number, .number number ∈ tokens (lex "x-max(y,1.e5)".toList) →
      ∀ r, HasRun number.toList r → env.get? (String.ofList r) = none := by
    intro number hmem r hr
    rw [htokens] at hmem
    have hnumber : number = "1.e5" := by simpa using hmem
    have hchars : number.toList = ['1', '.', 'e', '5'] := by
      rw [hnumber]
      exact String.toList_ofList
    obtain ⟨before, behind, hcut, -⟩ := hr.alone
    have hne : ∀ c, c ∉ ['1', '.', 'e', '5'] → String.ofList r ≠ String.ofList [c] := by
      intro c hc heq
      rw [← hchars, hcut, String.ofList_inj.1 heq] at hc
      exact hc (by simp)
    rw [hget, if_neg (hne 'y' (by decide)), if_neg (hne 'x' (by decide))]
  refine ⟨hsentence, hints, hcalls, hnumbers, ?_⟩
  exact (substitute_keeps_tree env _ e hsentence hints hcalls hnumbers).1

end BareBones.Arithmetic
