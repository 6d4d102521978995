/-
A function is a part of the program.

A `func` takes the statements between itself and its `end` out of the program, as they stand there.
From then on the function is its own: it may be defined anew, inside a loop or a branch, and calls
hand the table of functions on.  But functions come from no other place, and nothing changes one
that is in the table.  So every function that a run ever holds can be pointed at in the program.

The text of a function can be read again, also where that of the program cannot.  The `end` behind
the body is a statement of the source too, so the body never holds the last one.
-/
import BareBones.Proofs.Names
import BareBones.Proofs.Slices
import BareBones.Proofs.Source.Reparsing

namespace BareBones

variable {σ : Type}

/-- The function is what stands in the program between a `func` and the `end` that closes it. -/
structure Function.From (p : Program) (f : Function Program) : Prop where
  opener : ∃ a s, f.start = a + 1 ∧ p.get? a = some s ∧ s.keyword? = some .func ∧
    p.blockEnd? a = some f.stop ∧ dropDo s.arguments = f.name :: f.params
  body : f.body = p.slice f.start f.stop
  source : f.source = f.body.sourceText

theorem Function.from_define {p : Program} {a stop : Nat} {s : Statement} {f : Function Program}
    (hs : p.get? a = some s) (hk : s.keyword? = some .func) (hblock : p.blockEnd? a = some stop)
    (hf : define s p a stop = .ok f) : f.From p := by
  obtain ⟨name, params, hargs, -, -, rfl⟩ := define_eq_ok hf
  exact ⟨⟨a, s, rfl, hs, hk, hblock, hargs⟩, rfl, rfl⟩

/-- All functions come from the program, and it is this program that may define more. -/
structure Context.HoldsFrom (p₀ p : Program) (c : Context Program) : Prop where
  main : c.scope.isMain = true → p = p₀
  functions : ∀ name f, c.functions.get? name = some f → f.From p₀

namespace Machine

variable {p₀ : Program}

/-- No statement changes a function or takes one from elsewhere. -/
theorem kept_holdsFrom (p₀ : Program) : Kept (Context.HoldsFrom p₀) := by
  refine ⟨?_, ?_⟩
  · intro p c c' s hc hw
    refine ⟨?_, ?_⟩
    · rw [hw.scope]
      exact hc.main
    · rw [hw.functions]
      exact hc.functions
  · intro p c a stop s f hc hmain hs hk hblock hf
    refine ⟨hc.main, ?_⟩
    intro name g hg
    rw [NameMap.get?_insert] at hg
    split at hg
    · cases hg
      have hfrom := Function.from_define hs hk hblock hf
      rw [hc.main hmain] at hfrom
      exact hfrom
    · exact hc.functions name g hg

/-- A call starts with the functions of its caller, and it may define none. -/
theorem holdsFrom_enter {h : Host σ} {p : Program} {c : Context Program} {name : String}
    {args : List String} {body : Program} {callee : Context Program}
    (hc : c.HoldsFrom p₀ p) (hx : c.enter h name args = .ok (body, callee)) :
    callee.HoldsFrom p₀ body := by
  obtain ⟨f, env, -, -, -, -, rfl⟩ := Context.enter_eq_ok hx
  refine ⟨?_, hc.functions⟩
  intro hmain
  cases hmain

end Machine

namespace Session

theorem Passes.holdsFrom {h : Host σ} {s : Session} {w : World σ} {c : Context Program}
    (hc : s.Passes h w c) : ∃ p, c.HoldsFrom s.program p := by
  refine hc.kept (Machine.kept_holdsFrom s.program) (fun hc hx => Machine.holdsFrom_enter hc hx) ?_
  refine ⟨fun _ => rfl, ?_⟩
  intro name f hf
  cases hf

/-- At all times of the run of a program that was read from a source, in the program and in all
calls, every function is what the program says.  Right before it stands the `func` that gives its
name and its parameters, and that is closed right behind it.  Its body has the statements of the
program that stand there, with their lines.  And the text that it keeps is that of its body, and
reads as its body, with the same operations, arguments and texts. -/
theorem functions_are_captured (h : Host σ) (source : String) (s : Session)
    (hs : Program.parse source = .ok s.program) (w : World σ) (c : Context Program)
    (hc : s.Passes h w c) (name : String) (f : Function Program)
    (hf : c.functions.get? name = some f) :
    (∃ a opener, f.start = a + 1 ∧ s.program.get? a = some opener ∧
      opener.operation = "func" ∧ s.program.blockEnd? a = some f.stop ∧
      Function.dropDo opener.arguments = f.name :: f.params) ∧
    f.body.size = f.stop - f.start ∧
    (∀ i, f.start + i < f.stop → f.body.get? i = s.program.get? (f.start + i)) ∧
    f.source = f.body.sourceText ∧
    ∃ q, Program.parse f.source = .ok q ∧ q.spelling = f.body.spelling := by
  obtain ⟨p, hholds⟩ := hc.holdsFrom
  obtain ⟨⟨a, opener, hstart, hget, hk, hblock, hargs⟩, hbody, hsource⟩ :=
    hholds.functions name f hf
  have hlt := Program.blockEnd?_lt hblock
  have hsize := Program.blockEnd?_lt_size hblock
  refine ⟨⟨a, opener, hstart, hget, (Keyword.word_of_ofWord? hk).symm, hblock, hargs⟩, ?_, ?_,
    hsource, ?_⟩
  · rw [hbody, Program.size_slice (Nat.le_of_lt hsize)]
  · intro i hi
    rw [hbody, Program.get?_slice, if_pos hi]
  · rw [hsource, hbody]
    exact Source.reparse_slice hs (by omega) hsize

/-- A branch defines a function anew.  The source ends inside a string, but the text of the function
can be read. -/
theorem functions_are_captured_in_branch :
    let p := Program.ofStatements [⟨"func", ["F", "a"], "func F a", 1⟩, ⟨"end", [], "end", 1⟩,
      ⟨"if", ["1", "is", "1"], "if 1 is 1", 1⟩, ⟨"func", ["F", "do"], "func F do", 1⟩,
      ⟨"print", ["\"; #\""], "print \"; #\"", 2⟩, ⟨"end", [], "end", 2⟩, ⟨"end", [], "end", 2⟩,
      ⟨"p\"", [], "p\"", 2⟩]
    let h : Host Unit := ⟨{}, fun _ u => (.error (.unknownFunction ""), u)⟩
    Program.parse "func F a;end;if 1 is 1;func F do;\nprint \"; #\";end;end;p\"" = .ok p ∧
      ∃ c f, Passes h { program := p } { state := () } c ∧ c.functions.get? "F" = some f ∧
        f.start = 4 ∧ f.stop = 5 ∧ f.params = [] ∧ f.body.get? 0 = p.get? 4 ∧
        ∃ q, Program.parse f.source = .ok q ∧ q.spelling = f.body.spelling := by
  intro p h
  have hsource :
      Program.parse "func F a;end;if 1 is 1;func F do;\nprint \"; #\";end;end;p\"" = .ok p := by rfl
  let x := (start h { program := p } { state := () }).after h 1
  have hdefined : Point.Next h (start h { program := p } { state := () }) x :=
    .after (s := ⟨"func", ["F", "a"], "func F a", 1⟩) true
      ⟨by decide +kernel, by decide +kernel⟩ (by decide +kernel)
  have hpasses : Passes h { program := p } { state := () } _ :=
    ⟨x, Relation.ReflTransGen.single hdefined, Or.inr ⟨2, rfl⟩⟩
  have htable : ((Machine.step h (Machine.run h 2) x.machine x.world).2.1.functions.get? "F").map
      (fun f => (f.start, f.stop, f.params)) = some (4, 5, []) := by decide +kernel
  obtain ⟨f, hf, hparts⟩ := Option.map_eq_some_iff.1 htable
  obtain ⟨hstart, hstop, hparams⟩ : f.start = 4 ∧ f.stop = 5 ∧ f.params = [] := by
    simpa using hparts
  obtain ⟨-, -, hbody, -, hread⟩ := functions_are_captured h _ _ hsource _ _ hpasses "F" f hf
  refine ⟨hsource, _, f, hpasses, hf, hstart, hstop, hparams, ?_, hread⟩
  rw [hbody 0 (by omega), hstart]

end Session

end BareBones
