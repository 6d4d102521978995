/-
The text of a program reads as the program.

The text of a program is not the source that it came from.  Comments are gone, line breaks and
blanks have become single spaces, also inside strings, and every statement ends with `;` and a line
break.  None of this moves a place where a string opens or closes, a comment starts or a statement
ends, because all of these depend on the words of a fragment only.

So the text reads as the program, with one exception.  If the source ends inside a string, then the
text has a `;` behind the last statement that the string swallows.  The exception is about the last
statement only, so any part of the program before it reads as that part.
-/
import BareBones.Proofs.Source.Statements

namespace BareBones

open BareBones.Text

/-- What the statements of a program say, without the lines that they stand on. -/
def Program.spelling (p : Program) : List (String × List String × String) :=
  p.statements.toList.map fun s => (s.operation, s.arguments, s.text)

namespace Source

/-- The words of a fragment, with spaces between them, can stand on a line of their own.  A string
is open behind them if one is open behind the fragment. -/
theorem IsRead.isLine {cs : List Char} {q : Quoting} (h : IsRead cs q)
    (hmark : firstMark? cs ≠ none) :
    ∃ q', IsLine (unwords (words cs)) q' ∧ q'.opened = q.opened := by
  have hopened := Quoting.opened_eq_of_words_eq (words_unwords_words cs)
  rw [h.after, Option.map_some] at hopened
  obtain ⟨q', hq', hsame⟩ := Option.map_eq_some_iff.1 hopened
  refine ⟨q', ⟨?_, ?_, hq'⟩, hsame⟩
  · cases hws : words cs with
    | nil => exact absurd hws (words_ne_nil hmark)
    | cons w ws =>
        have hw : IsWord w := isWord_of_mem_words (by rw [hws]; exact List.mem_cons_self)
        cases w with
        | nil => exact absurd rfl hw.1
        | cons c w =>
            obtain ⟨cs', hcs'⟩ := exists_unwords_eq_cons c w ws
            refine ⟨c, cs', hcs', hw.2 c List.mem_cons_self, ?_⟩
            rintro rfl
            -- The first character of the first word is the first mark of the fragment.
            have hflat := flatten_words cs
            rw [hws] at hflat
            refine h.first ?_
            unfold firstMark?
            rw [← List.head?_filter, ← hflat]
            rfl
  · intro hmem
    rcases mem_unwords hmem with hmem | ⟨w, hw, hmem⟩
    · simp at hmem
    · exact absurd ((isWord_of_mem_words hw).2 _ hmem) (by decide)

theorem Fragment.Closed.isLine {f : Fragment} (h : f.Closed) :
    ∃ q, IsLine (unwords (words f.text)) q ∧ q.opened = false := by
  obtain ⟨hmark, q, hread, hopened⟩ := h
  obtain ⟨q', hline, hsame⟩ := hread.isLine hmark
  exact ⟨q', hline, by rw [hsame, hopened]⟩

/-- A separator behind a text changes its words. -/
theorem words_append_separator_ne (cs : List Char) : words (cs ++ [';', '\n']) ≠ words cs := by
  intro h
  have hflat := congrArg List.flatten h
  rw [flatten_words, flatten_words, List.filter_append] at hflat
  have hlength := congrArg List.length hflat
  rw [List.length_append] at hlength
  have hmark : ([';', '\n'].filter (!isBlank ·)).length = 1 := by decide
  omega

variable {source : String} {ss : List Statement}

theorem toList_sourceText (p : Program) :
    p.sourceText.toList = lines (p.statements.toList.map (·.text.toList)) := by
  unfold Program.sourceText lines
  rw [String.toList_join, List.flatMap_map, List.flatMap_map]
  congr 1
  funext s
  rw [String.toList_append]
  rfl

/-- The texts of statements are the words of their fragments. -/
theorem texts_of_tokens? : ∀ {fs : List Fragment} {tss : List (List String)},
    fs.map Fragment.tokens? = tss.map some →
    tss.map (fun ts => (" ".intercalate ts).toList) = fs.map (fun f => unwords (words f.text)) := by
  intro fs
  induction fs with
  | nil =>
      intro tss h
      cases tss with
      | nil => rfl
      | cons ts tss => simp at h
  | cons f fs ih =>
      intro tss h
      cases tss with
      | nil => simp at h
      | cons ts tss =>
          simp only [List.map_cons, List.cons.injEq] at h
          rw [List.map_cons, List.map_cons, ih h.2, Fragment.toList_intercalate_of_tokens? h.1]

theorem texts_of_statements {fs : List Fragment} (h : statements fs = .ok ss)
    (hmarks : ∀ f ∈ fs, firstMark? f.text ≠ none) :
    ss.map (·.text.toList) = fs.map fun f => unwords (words f.text) := by
  obtain ⟨htokens, htexts⟩ := tokens?_of_statements h hmarks
  rw [← texts_of_tokens? htokens]
  have hmap := congrArg (List.map String.toList) htexts
  rw [List.map_map, List.map_map] at hmap
  exact hmap

/-- What statements say is settled by their tokens. -/
theorem spelling_of_statements {fs : List Fragment} (h : statements fs = .ok ss)
    (hmarks : ∀ f ∈ fs, firstMark? f.text ≠ none) :
    (Program.ofStatements ss).spelling
      = (ss.map Statement.tokens).map fun ts => (ts.headD "", ts.tail, " ".intercalate ts) := by
  obtain ⟨-, htexts⟩ := tokens?_of_statements h hmarks
  rw [List.map_map] at htexts
  show ss.map (fun s => (s.operation, s.arguments, s.text)) = _
  rw [List.map_map]
  refine List.map_congr_left ?_
  intro s hs
  have htext : s.text = " ".intercalate s.tokens := List.map_inj_left.1 htexts s hs
  show (s.operation, s.arguments, s.text) = (s.operation, s.arguments, " ".intercalate s.tokens)
  rw [htext]

/-- If all strings are closed, the text of a program reads as the program. -/
theorem reparse_of_closed {fs : List Fragment} (h : statements fs = .ok ss)
    (hclosed : ∀ f ∈ fs, f.Closed) :
    ∃ q, Program.parse (Program.ofStatements ss).sourceText = .ok q ∧
      q.spelling = (Program.ofStatements ss).spelling := by
  have hmarks : ∀ f ∈ fs, firstMark? f.text ≠ none := fun f hf => (hclosed f hf).1
  obtain ⟨htokens, -⟩ := tokens?_of_statements h hmarks
  have hsource : (Program.ofStatements ss).sourceText.toList
      = lines (fs.map fun f => unwords (words f.text)) := by
    rw [toList_sourceText, ← texts_of_statements h hmarks]
    rfl
  have hlines : ∀ t ∈ fs.map (fun f => unwords (words f.text)),
      ∃ q, IsLine t q ∧ q.opened = false := by
    intro t ht
    obtain ⟨f, hf, rfl⟩ := List.mem_map.1 ht
    exact (hclosed f hf).isLine
  obtain ⟨hwords, -⟩ := fragments_lines hlines
  rw [← hsource, List.map_map] at hwords
  have htokens' : (fragments (Program.ofStatements ss).sourceText.toList).map Fragment.tokens?
      = (ss.map Statement.tokens).map some := by
    rw [← htokens, Fragment.map_tokens?, Fragment.map_tokens?, hwords]
    congr 1
    exact List.map_congr_left fun f _ => words_unwords_words f.text
  have hne : ∀ ts ∈ ss.map Statement.tokens, ts ≠ [] := by
    intro ts hts
    obtain ⟨s, -, rfl⟩ := List.mem_map.1 hts
    simp [Statement.tokens]
  obtain ⟨ss', hss', htss, -, -⟩ := statements_of_tokens? htokens' hne
  refine ⟨Program.ofStatements ss', Program.parse_eq hss', ?_⟩
  rw [spelling_of_statements hss' fun f hf => firstMark?_ne_none_of_mem hf,
    spelling_of_statements h hmarks, htss]

/-- A part of a program that stops before its last statement reads as that part, whatever the source
ends with. -/
theorem reparse_slice {p : Program} (h : Program.parse source = .ok p) {start stop : Nat}
    (hle : start ≤ stop) (hstop : stop < p.size) :
    ∃ q, Program.parse (p.slice start stop).sourceText = .ok q ∧
      q.spelling = (p.slice start stop).spelling := by
  obtain ⟨ss, hss, rfl⟩ := parse_eq_ok h
  have hmarks : ∀ f ∈ fragments source.toList, firstMark? f.text ≠ none :=
    fun f hf => firstMark?_ne_none_of_mem hf
  have hlength := length_of_statements hss hmarks
  have hsize : stop < (fragments source.toList).length := by
    rw [← hlength]
    simpa [Program.size, Program.ofStatements] using hstop
  generalize hfs : fragments source.toList = fs at hss hmarks hlength hsize
  -- The fragments before the part, those of the part and those behind it.
  have hparts : fs = fs.take start ++ ((fs.take stop).drop start ++ fs.drop stop) := by
    have hfirst : (fs.take stop).take start = fs.take start := by
      rw [List.take_take, Nat.min_eq_left hle]
    rw [← List.append_assoc, ← hfirst, List.take_append_drop, List.take_append_drop]
  rw [hparts] at hss
  obtain ⟨ss₁, ss', hss₁, hss', rfl⟩ := statements_append hss
  obtain ⟨ss₂, ss₃, hss₂, -, rfl⟩ := statements_append hss'
  have hclosed : ∀ f ∈ (fs.take stop).drop start, f.Closed := by
    intro f hf
    have hmem : f ∈ (fragments source.toList).dropLast := by
      rw [hfs, List.dropLast_eq_take]
      have hprefix : fs.take stop <+: fs.take (fs.length - 1) :=
        List.take_prefix_take_left (by omega)
      exact hprefix.subset (List.mem_of_mem_drop hf)
    exact closed_of_mem_dropLast hmem
  have hlen₁ : ss₁.length = start := by
    rw [length_of_statements hss₁ fun f hf => hmarks f (List.mem_of_mem_take hf),
      List.length_take]
    omega
  have hlen₂ : ss₂.length = stop - start := by
    rw [length_of_statements hss₂ fun f hf => (hclosed f hf).1, List.length_drop,
      List.length_take]
    omega
  have hslice : (Program.ofStatements (ss₁ ++ (ss₂ ++ ss₃))).slice start stop
      = Program.ofStatements ss₂ := by
    show Program.ofStatements (((ss₁ ++ (ss₂ ++ ss₃)).drop start).take (stop - start)) = _
    rw [List.drop_left' hlen₁, List.take_left' hlen₂]
  rw [hslice]
  exact reparse_of_closed hss₂ hclosed

/-- If a string is open at the end of the source, it does not. -/
theorem not_reparse_of_open (h : statements (fragments source.toList) = .ok ss)
    (hopen : (scan source.toList).mode = .quoted) :
    ¬ ∃ q, Program.parse (Program.ofStatements ss).sourceText = .ok q ∧
      q.spelling = (Program.ofStatements ss).spelling := by
  rintro ⟨q, hq, hspelling⟩
  obtain ⟨ss', hss', rfl⟩ := parse_eq_ok hq
  have htextsOf : ∀ {s : String} {ss : List Statement}, statements (fragments s.toList) = .ok ss →
      ss.map (·.text.toList) = (fragments s.toList).map fun f => unwords (words f.text) :=
    fun h => texts_of_statements h fun f hf => firstMark?_ne_none_of_mem hf
  obtain ⟨fs, f, hfs, hclosed, qf, hread, hopened⟩ := open_of_mode_eq hopen
  have hsource : (Program.ofStatements ss).sourceText.toList
      = lines (fs.map (fun f => unwords (words f.text)) ++ [unwords (words f.text)]) := by
    rw [toList_sourceText]
    show lines (ss.map (·.text.toList)) = _
    rw [htextsOf h, hfs, List.map_append, List.map_singleton]
  have hlines : ∀ t ∈ fs.map (fun f => unwords (words f.text)),
      ∃ q, IsLine t q ∧ q.opened = false := by
    intro t ht
    obtain ⟨g, hg, rfl⟩ := List.mem_map.1 ht
    exact (hclosed g hg).isLine
  obtain ⟨q', hline, hsame⟩ := hread.isLine (hread.firstMark?_ne_none hopened)
  obtain ⟨gs, g, hgs, hwords⟩ := fragments_open_lines hlines hline (by rw [hsame, hopened])
  rw [← hsource] at hgs
  -- The last texts are the words of `f`, with and without a separator behind them.
  have htexts : ss'.map (·.text) = ss.map (·.text) := by
    have := congrArg (List.map fun x : String × List String × String => x.2.2) hspelling
    simpa [Program.spelling, Program.ofStatements, List.map_map, Function.comp_def] using this
  have hlists := congrArg (List.map String.toList) htexts
  rw [List.map_map, List.map_map] at hlists
  have hlast := congrArg List.getLast? (((htextsOf hss').symm.trans hlists).trans (htextsOf h))
  rw [hgs, hfs, List.map_append, List.map_append, List.map_singleton, List.map_singleton,
    List.getLast?_concat, List.getLast?_concat] at hlast
  have hsameWords := congrArg words (Option.some.inj hlast)
  rw [words_unwords_words, words_unwords_words, hwords] at hsameWords
  refine words_append_separator_ne (unwords (words f.text)) ?_
  rw [hsameWords, words_unwords_words]

/-- The text of a program that was read from a source reads as the same program, with the same
operations, arguments and texts, exactly if the source does not end inside a string; that is, if
the number of double quotes outside comments with no backslash right before them is even. -/
theorem reparse_sourceText_iff (source : String) (p : Program) (h : Program.parse source = .ok p) :
    ((∃ q, Program.parse p.sourceText = .ok q ∧ q.spelling = p.spelling) ↔
        (scan source.toList).mode ≠ .quoted) ∧
      ((scan source.toList).mode ≠ .quoted ↔ Even (liveQuotes source.toList)) := by
  obtain ⟨ss, hss, rfl⟩ := parse_eq_ok h
  refine ⟨⟨?_, ?_⟩, ?_⟩
  · intro hread hopen
    exact not_reparse_of_open hss hopen hread
  · intro hclosed
    exact reparse_of_closed hss (closed_of_mode_ne hclosed)
  · rw [Ne, mode_eq_quoted_iff, not_not]

/-- A statement with a comment inside and a string over two lines is read again.  One whose last
word opens a string is not. -/
theorem reparse_sourceText_iff_both_ways :
    let closed := "print x\n# \" ;\n\"b\n#;\" y"
    let p := Program.ofStatements [⟨"print", ["x", "\"b #;\"", "y"], "print x \"b #;\" y", 1⟩]
    let unclosed := "print a\"b"
    let p' := Program.ofStatements [⟨"print", ["a\"b"], "print a\"b", 1⟩]
    (Program.parse closed = .ok p ∧
      ∃ q, Program.parse p.sourceText = .ok q ∧ q.spelling = p.spelling) ∧
    Program.parse unclosed = .ok p' ∧
      ¬ ∃ q, Program.parse p'.sourceText = .ok q ∧ q.spelling = p'.spelling := by
  dsimp only
  have hclosed : Program.parse "print x\n# \" ;\n\"b\n#;\" y" = .ok (Program.ofStatements
      [⟨"print", ["x", "\"b #;\"", "y"], "print x \"b #;\" y", 1⟩]) := by rfl
  have hunclosed : Program.parse "print a\"b" = .ok (Program.ofStatements
      [⟨"print", ["a\"b"], "print a\"b", 1⟩]) := by rfl
  refine ⟨⟨hclosed, ?_⟩, hunclosed, ?_⟩
  · exact (reparse_sourceText_iff _ _ hclosed).1.2 (by decide)
  · intro hread
    exact (reparse_sourceText_iff _ _ hunclosed).1.1 hread (by decide)

end Source

end BareBones
