/-
Programs that are written out are read back.

A statement is written as its tokens with one space between each two, and `;` with a line break
behind them.  A token is a word without quotes and separators, or a string between quotes in which
every quote has a backslash before it.

Two readers have to agree on where a string ends.  The scanner goes by quotes, one character at a
time, and the grouping of words goes by how a word starts and how it ends.  A string body is built
so that no quote in it ends a word without a backslash before it, and that is all that either of
them needs.
-/
import BareBones.Proofs.Source.Statements

namespace BareBones.Source

open BareBones.Text

/-! ### Tokens -/

/-- A token that is no string. -/
structure IsBare (t : List Char) : Prop where
  ne_nil : t ≠ []
  plain : ∀ c ∈ t, isBlank c = false ∧ c ≠ '"' ∧ c ≠ ';'

/-- What may stand between the quotes of a string. -/
structure IsBody (b : List Char) : Prop where
  /-- The only blank is the space. -/
  blank : ∀ c ∈ b, isBlank c = true → c = ' '
  /-- No two spaces stand side by side. -/
  single : ¬ [' ', ' '] <:+: b
  /-- A backslash stands right before every quote. -/
  escaped : ∀ u v, b = u ++ '"' :: v → u.getLast? = some '\\'
  /-- The quote behind the body has no backslash before it. -/
  closed : b.getLast? ≠ some '\\'

/-- To check the quotes of a body, it is enough to look at each place once. -/
theorem escaped_of_forall {b : List Char}
    (h : ∀ i < b.length, b[i]? = some '"' → (b.take i).getLast? = some '\\') :
    ∀ u v, b = u ++ '"' :: v → u.getLast? = some '\\' := by
  intro u v hb
  have hlast := h u.length (by simp [hb]) (by simp [hb])
  simpa [hb] using hlast

/-- The tokens that can be written and read back. -/
inductive IsToken : List Char → Prop
  | bare {t : List Char} (h : IsBare t) : IsToken t
  | quoted {b : List Char} (h : IsBody b) : IsToken ('"' :: (b ++ ['"']))

/-- The tokens of one statement.  The first of them starts no comment. -/
structure IsWritable (ts : List String) : Prop where
  ne_nil : ts ≠ []
  token : ∀ t ∈ ts, IsToken t.toList
  first : ∀ t ∈ ts.head?, t.toList.head? ≠ some '#'

/-- The text of statements, one a line. -/
def render (tss : List (List String)) : String :=
  String.join (tss.map (" ".intercalate · ++ ";\n"))

theorem IsBare.isWord {t : List Char} (h : IsBare t) : IsWord t :=
  ⟨h.ne_nil, fun c hc => (h.plain c hc).1⟩

/-- What stands behind a space in a body is a body, and does not start with a space. -/
theorem IsBody.behind_space {u b : List Char} (h : IsBody (u ++ ' ' :: b)) :
    IsBody b ∧ b.head? ≠ some ' ' := by
  refine ⟨⟨?_, ?_, ?_, ?_⟩, ?_⟩
  · intro c hc
    exact h.blank c (by simp [hc])
  · rintro ⟨x, y, hxy⟩
    exact h.single ⟨u ++ ' ' :: x, y, by simp [← hxy]⟩
  · intro x y hxy
    have hlast := h.escaped (u ++ ' ' :: x) y (by simp [hxy])
    rw [List.getLast?_append, List.getLast?_cons] at hlast
    cases hx : x.getLast? with
    | none => simp [hx] at hlast
    | some c => simpa [hx] using hlast
  · intro hlast
    refine h.closed ?_
    rw [List.getLast?_append, List.getLast?_cons, hlast]
    rfl
  · intro hhead
    obtain ⟨y, rfl⟩ := List.head?_eq_some_iff.1 hhead
    exact h.single ⟨u, y, by simp⟩

/-- Either a body has no blanks, or its first blank is a space. -/
theorem IsBody.split {b : List Char} (h : IsBody b) :
    (∀ c ∈ b, isBlank c = false) ∨
      ∃ u v, b = u ++ ' ' :: v ∧ ∀ c ∈ u, isBlank c = false := by
  have hsplit : b.takeWhile (!isBlank ·) ++ b.dropWhile (!isBlank ·) = b :=
    List.takeWhile_append_dropWhile
  have hword : ∀ c ∈ b.takeWhile (!isBlank ·), isBlank c = false := by
    intro c hc
    have hall := List.all_eq_true.1 (List.all_takeWhile (p := (!isBlank ·)) (l := b)) c hc
    simpa using hall
  cases hrest : b.dropWhile (!isBlank ·) with
  | nil =>
      rw [hrest, List.append_nil] at hsplit
      rw [hsplit] at hword
      exact Or.inl hword
  | cons c v =>
      have hblank : isBlank c = true := by
        have hhead := List.head_dropWhile_not (!isBlank ·) (l := b) (by rw [hrest]; simp)
        simpa [hrest] using hhead
      have hc : c = ' ' := h.blank c (by rw [← hsplit, hrest]; simp) hblank
      rw [hrest, hc] at hsplit
      exact Or.inr ⟨_, v, hsplit.symm, hword⟩

/-! ### Where a string ends for the grouping of words -/

theorem closesString_append_quote (w : List Char) :
    closesString (w ++ ['"']) = true ↔ w.getLast? ≠ some '\\' := by
  unfold closesString
  rw [List.reverse_append, List.getLast?_eq_head?_reverse]
  cases w.reverse with
  | nil => simp
  | cons c w => by_cases hc : c = '\\' <;> simp [hc]

/-- A word closes no string if a backslash stands before the quote that ends it. -/
theorem closesString_eq_false {w : List Char}
    (h : ∀ u, w = u ++ ['"'] → u.getLast? = some '\\') : closesString w = false := by
  cases w using List.reverseRecOn with
  | nil => rfl
  | append_singleton w c =>
      by_cases hc : c = '"'
      · subst hc
        have hiff := closesString_append_quote w
        simpa [h w rfl] using hiff
      · unfold closesString
        simp [hc]

/-- The words of a body that was started are put together up to the quote behind it. -/
theorem group_pending : ∀ (n : Nat) {b p : List Char} {ws : List (List Char)}, b.length < n →
    IsBody b → b.head? ≠ some ' ' →
    group (some p) (words (b ++ ['"']) ++ ws)
      = (group none ws).map ((p ++ ' ' :: (b ++ ['"'])) :: ·) := by
  intro n
  induction n with
  | zero => intro b p ws hn; omega
  | succ n ih =>
      intro b p ws hn hb hhead
      rcases hb.split with hword | ⟨u, v, rfl, hword⟩
      · have hwords : words (b ++ ['"']) = [b ++ ['"']] := by
          refine words_of_forall_not_isBlank (by simp) ?_
          intro c hc
          rcases List.mem_append.1 hc with hc | hc
          · exact hword c hc
          · rw [List.mem_singleton.1 hc]
            decide
        have hcloses : closesString (b ++ ['"']) = true := (closesString_append_quote b).2 hb.closed
        rw [hwords]
        simp [group, hcloses]
      · obtain ⟨hv, hvhead⟩ := hb.behind_space
        have hne : u ≠ [] := by
          rintro rfl
          simp at hhead
        have hwords : words (u ++ ' ' :: v ++ ['"']) = u :: words (v ++ ['"']) := by
          rw [List.append_assoc, List.cons_append, words_append_cons_of_isBlank (by decide),
            words_of_forall_not_isBlank hne hword]
          rfl
        have hopen : closesString u = false := by
          refine closesString_eq_false ?_
          intro x hx
          exact hb.escaped x (' ' :: v) (by simp [hx])
        have hlength : v.length < n := by
          simp only [List.length_append, List.length_cons] at hn
          omega
        rw [hwords, List.cons_append]
        simp only [group, hopen]
        rw [if_neg (by simp), ih hlength hv hvhead]
        simp

/-- A token is read off the words of its text. -/
theorem IsToken.group {t : List Char} (ht : IsToken t) (ws : List (List Char)) :
    group none (words t ++ ws) = (group none ws).map (t :: ·) := by
  cases ht with
  | bare h =>
      have hopen : opensString t = false := by
        cases t with
        | nil => rfl
        | cons c t =>
            have hc : c ≠ '"' := (h.plain c List.mem_cons_self).2.1
            unfold opensString
            split
            · next heq => exact absurd (List.cons.inj heq).1 hc
            · rfl
      rw [h.isWord.words_eq]
      simp [Source.group, hopen]
  | @quoted b h =>
      rcases h.split with hword | ⟨u, v, rfl, hword⟩
      · have hwords : words ('"' :: (b ++ ['"'])) = ['"' :: (b ++ ['"'])] := by
          refine words_of_forall_not_isBlank (by simp) ?_
          intro c hc
          simp only [List.mem_cons, List.mem_append, List.not_mem_nil, or_false] at hc
          rcases hc with rfl | hc | rfl
          · decide
          · exact hword c hc
          · decide
        have hcloses : closesString ('"' :: (b ++ ['"'])) = true := by
          refine (closesString_append_quote ('"' :: b)).2 ?_
          rw [List.getLast?_cons]
          cases hlast : b.getLast? with
          | none => simp
          | some c => simpa [hlast] using h.closed
        rw [hwords]
        simp [Source.group, opensString, hcloses]
      · obtain ⟨hv, hvhead⟩ := h.behind_space
        have hwords : words ('"' :: (u ++ ' ' :: v ++ ['"']))
            = ('"' :: u) :: words (v ++ ['"']) := by
          have hassoc : '"' :: (u ++ ' ' :: v ++ ['"']) = ('"' :: u) ++ ' ' :: (v ++ ['"']) := by
            simp
          rw [hassoc, words_append_cons_of_isBlank (by decide)]
          have hfirst : words ('"' :: u) = ['"' :: u] := by
            refine words_of_forall_not_isBlank (by simp) ?_
            intro c hc
            rcases List.mem_cons.1 hc with rfl | hc
            · decide
            · exact hword c hc
          rw [hfirst]
          rfl
        -- The quote alone opens a string, and so does a word whose last quote is escaped.
        have hopens : opensString ('"' :: u) = true := by
          cases u with
          | nil => rfl
          | cons d u =>
              have hcloses : closesString ('"' :: d :: u) = false := by
                refine closesString_eq_false ?_
                intro x hx
                cases x with
                | nil => simp at hx
                | cons e x =>
                    have hlast := h.escaped x (' ' :: v) (by rw [(List.cons.inj hx).2]; simp)
                    rw [List.getLast?_cons, hlast]
                    rfl
              simp [opensString, hcloses]
        rw [hwords, List.cons_append]
        simp only [Source.group, if_pos hopens]
        rw [group_pending (v.length + 1) (Nat.lt_succ_self _) hv hvhead]
        simp

theorem group_tokens : ∀ {ts : List (List Char)}, (∀ t ∈ ts, IsToken t) →
    group none (words (unwords ts)) = some ts := by
  intro ts
  rw [words_unwords_flatMap]
  induction ts with
  | nil => intro _; rfl
  | cons t ts ih =>
      intro hts
      rw [List.flatMap_cons, (hts t List.mem_cons_self).group,
        ih (fun u hu => hts u (List.mem_cons_of_mem t hu))]
      rfl

/-! ### Where a string ends for the scanner -/

/-- A string stays open through a body. -/
theorem after?_body {u : List Char} (h : ∀ x y, u = x ++ '"' :: y → x.getLast? = some '\\') :
    (⟨true, false⟩ : Quoting).after? u = some ⟨true, u.getLast? == some '\\'⟩ := by
  induction u using List.reverseRecOn with
  | nil => rfl
  | append_singleton u c ih =>
      have hinit := ih (fun x y hxy => h x (y ++ [c]) (by simp [hxy]))
      rw [Quoting.after?_append, hinit, List.getLast?_concat]
      by_cases hc : c = '"'
      · subst hc
        simp [Quoting.next?, h u [] rfl]
      · simp [Quoting.next?, hc]

/-- A token that is no string leaves open what is open. -/
theorem after?_plain : ∀ {t : List Char} (q : Quoting), (∀ c ∈ t, c ≠ '"' ∧ c ≠ ';') →
    ∃ q', q.after? t = some q' ∧ q'.opened = q.opened := by
  intro t
  induction t with
  | nil => intro q _; exact ⟨q, rfl, rfl⟩
  | cons c t ih =>
      intro q ht
      obtain ⟨hquote, hsep⟩ := ht c List.mem_cons_self
      rw [Quoting.after?_cons, q.next?_of_plain hquote hsep]
      exact ih _ (fun d hd => ht d (List.mem_cons_of_mem c hd))

/-- No string is open behind a token. -/
theorem IsToken.after? {t : List Char} (ht : IsToken t) :
    ∃ q, Quoting.start.after? t = some q ∧ q.opened = false := by
  cases ht with
  | bare h => exact after?_plain Quoting.start fun c hc => (h.plain c hc).2
  | @quoted b h =>
      refine ⟨⟨false, false⟩, ?_, rfl⟩
      have hopen : Quoting.start.next? '"' = some ⟨true, false⟩ := rfl
      have hlast : (b.getLast? == some '\\') = false := by simpa using h.closed
      rw [Quoting.after?_cons, hopen, Option.bind_some, Quoting.after?_append,
        after?_body h.escaped, hlast]
      rfl

theorem after?_unwords : ∀ {ts : List (List Char)}, (∀ t ∈ ts, IsToken t) →
    ∃ q, Quoting.start.after? (unwords ts) = some q ∧ q.opened = false := by
  intro ts
  induction ts with
  | nil => intro _; exact ⟨Quoting.start, rfl, rfl⟩
  | cons t ts ih =>
      intro hts
      obtain ⟨q, hq, hopened⟩ := (hts t List.mem_cons_self).after?
      cases ts with
      | nil =>
          rw [unwords_singleton]
          exact ⟨q, hq, hopened⟩
      | cons u ts =>
          rw [unwords_cons_cons, Quoting.after?_append, hq, Option.bind_some, Quoting.after?_cons,
            q.next?_of_isBlank (by decide), hopened]
          exact ih fun v hv => hts v (List.mem_cons_of_mem t hv)

/-! ### Statements that are written out -/

theorem IsToken.newline_not_mem {t : List Char} (ht : IsToken t) : '\n' ∉ t := by
  intro hmem
  cases ht with
  | bare h => exact absurd (h.plain _ hmem).1 (by decide)
  | @quoted b h =>
      simp only [List.mem_cons, List.mem_append, List.not_mem_nil, or_false] at hmem
      rcases hmem with hmem | hmem | hmem
      · simp at hmem
      · exact absurd (h.blank _ hmem (by decide)) (by decide)
      · simp at hmem

theorem IsToken.head {t : List Char} (ht : IsToken t) : ∃ c w, t = c :: w ∧ isBlank c = false := by
  cases ht with
  | bare h =>
      cases t with
      | nil => exact absurd rfl h.ne_nil
      | cons c w => exact ⟨c, w, rfl, (h.plain c List.mem_cons_self).1⟩
  | @quoted b h => exact ⟨'"', b ++ ['"'], rfl, by decide⟩

theorem IsWritable.isToken {ts : List String} (h : IsWritable ts) :
    ∀ t ∈ ts.map String.toList, IsToken t := by
  intro t ht
  obtain ⟨u, hu, rfl⟩ := List.mem_map.1 ht
  exact h.token u hu

/-- The tokens of a statement are read off the words of its text. -/
theorem IsWritable.group {ts : List String} (h : IsWritable ts) :
    (Source.group none (words (unwords (ts.map String.toList)))).map (·.map String.ofList)
      = some ts := by
  rw [group_tokens h.isToken, Option.map_some, List.map_map]
  congr 1
  exact List.map_id'' (fun _ => String.ofList_toList) ts

/-- The text of a statement can stand on a line of its own. -/
theorem IsWritable.isLine {ts : List String} (h : IsWritable ts) :
    ∃ q, IsLine (unwords (ts.map String.toList)) q ∧ q.opened = false := by
  have htokens := h.isToken
  obtain ⟨q, hq, hopened⟩ := after?_unwords htokens
  refine ⟨q, ⟨?_, ?_, hq⟩, hopened⟩
  · cases ts with
    | nil => exact absurd rfl h.ne_nil
    | cons t ts =>
        obtain ⟨c, w, hcw, hc⟩ := (h.token t List.mem_cons_self).head
        obtain ⟨cs, hcs⟩ := exists_unwords_eq_cons c w (ts.map String.toList)
        refine ⟨c, cs, by rw [List.map_cons, hcw, hcs], hc, ?_⟩
        have hfirst := h.first t rfl
        rw [hcw] at hfirst
        simpa using hfirst
  · intro hmem
    rcases mem_unwords hmem with hmem | ⟨t, ht, hmem⟩
    · simp at hmem
    · exact (htokens t ht).newline_not_mem hmem

theorem toList_render (tss : List (List String)) :
    (render tss).toList = lines (tss.map fun ts => unwords (ts.map String.toList)) := by
  unfold render lines
  rw [String.toList_join, List.flatMap_map, List.flatMap_map]
  congr 1
  funext ts
  rw [String.toList_append, toList_intercalate_space]
  rfl

/-- Statements that are written out, one a line, are read back: the same tokens in the same
statements, the text that was written, and the statements on the lines from the first on. -/
theorem parse_render (tss : List (List String)) (h : ∀ ts ∈ tss, IsWritable ts) :
    ∃ p, Program.parse (render tss) = .ok p ∧
      p.statements.toList.map Statement.tokens = tss ∧
      p.statements.toList.map Statement.text = tss.map (" ".intercalate ·) ∧
      p.statements.toList.map Statement.line = List.range' 1 tss.length := by
  have hlines : ∀ t ∈ tss.map (fun ts => unwords (ts.map String.toList)),
      ∃ q, IsLine t q ∧ q.opened = false := by
    intro t ht
    obtain ⟨ts, hts, rfl⟩ := List.mem_map.1 ht
    exact (h ts hts).isLine
  obtain ⟨hwords, hnumbers⟩ := fragments_lines hlines
  rw [← toList_render] at hwords hnumbers
  have htokens : (fragments (render tss).toList).map Fragment.tokens? = tss.map some := by
    rw [Fragment.map_tokens?, hwords, List.map_map, List.map_map]
    exact List.map_congr_left fun ts hts => (h ts hts).group
  obtain ⟨ss, hss, htss, htexts, hsslines⟩ :=
    statements_of_tokens? htokens (fun ts hts => (h ts hts).ne_nil)
  refine ⟨Program.ofStatements ss, Program.parse_eq hss, htss, htexts, ?_⟩
  rw [show (Program.ofStatements ss).statements.toList = ss from rfl, hsslines, hnumbers,
    List.length_map]

/-- A string with a separator, a `#`, an escaped quote and spaces at its two ends, and a word that
ends in a backslash before an empty string. -/
theorem parse_render_strings :
    let tss := [["print", "\" ;#\\\" \""], ["x\\", "\"\"", "#"]]
    (∀ ts ∈ tss, IsWritable ts) ∧ ∃ p, Program.parse (render tss) = .ok p ∧
      p.statements.toList.map Statement.tokens = tss ∧
      p.statements.toList.map Statement.text = ["print \" ;#\\\" \"", "x\\ \"\" #"] ∧
      p.statements.toList.map Statement.line = [1, 2] := by
  intro tss
  have hbody : IsBody [' ', ';', '#', '\\', '"', ' '] :=
    ⟨by simp [isBlank], by decide, escaped_of_forall (by decide), by decide⟩
  have hempty : IsBody [] := ⟨by simp, by decide, escaped_of_forall (by decide), by decide⟩
  have hwritable : ∀ ts ∈ tss, IsWritable ts := by
    intro ts hts
    simp only [tss, List.mem_cons, List.not_mem_nil, or_false] at hts
    rcases hts with rfl | rfl
    · refine ⟨by simp, ?_, by decide⟩
      intro t ht
      simp only [List.mem_cons, List.not_mem_nil, or_false] at ht
      rcases ht with rfl | rfl
      · exact .bare ⟨by decide, by simp [isBlank]⟩
      · exact .quoted hbody
    · refine ⟨by simp, ?_, by decide⟩
      intro t ht
      simp only [List.mem_cons, List.not_mem_nil, or_false] at ht
      rcases ht with rfl | rfl | rfl
      · exact .bare ⟨by decide, by simp [isBlank]⟩
      · exact .quoted hempty
      · exact .bare ⟨by decide, by simp [isBlank]⟩
  exact ⟨hwritable, parse_render tss hwritable⟩

end BareBones.Source
