/-
# Panic details

`panic_detail.rs` keeps two thread-local cells: the detail of the last
panic, which the panic hook writes and `catch_unwind` takes, and the current
span, which `set_current_span` sets and its guard restores when dropped. A
thread is the state of the two cells (`Cells`), and each function of the
file is a step on it.

A thread's work is a tree of tasks (`Task`): a panic, a scope holding a
span guard, and a `catch_unwind`. A panic runs the hook, then unwinds to
the nearest `catch_unwind`, dropping the guards on its way (`Task.run`).
What happens is fixed by the tree alone (`Task.escape`, `Task.caughtSpec`):
every guard restores the span on every path, unwinding included, and each
`catch_unwind` returns the detail the hook built for the panic that escaped
its body, with the span of the innermost guard alive at the panic; it never
falls back to `PanicDetail::new` (`run_eq_spec`).

The hook is assumed installed (`std::panic::set_hook(Box::new(panic_hook))`
is done by the driver), and panics unwind.

Key definitions: `PanicDetail`, `Cells`, `panicHook`, `takeCurrent`,
`catchUnwind`, `setCurrentSpan`, `Task.run`, `Task.escape`, `Task.caughtSpec`.
Key theorems: `run_spec`, `caughtSpec_fromHook`, `run_eq_spec`, `run_detail_none`,
`run_detail_cell`.
-/
import C2RustRewrite.Rewrite

namespace C2RustRewrite
namespace Panics

/-! ### The detail of a panic -/

/-- A symbol of a backtrace frame: its name, file, line and column, as
`backtrace::BacktraceSymbol` reports them. -/
structure Symbol where
  name : Option String
  filename : Option String
  lineno : Option ℕ
  colno : Option ℕ
  deriving DecidableEq, Repr

/-- `backtrace::Backtrace`: its frames, each with its symbols. -/
abbrev Backtrace := List (List Symbol)

/-- `PanicDetail`. -/
structure PanicDetail where
  msg : String
  loc : Option String
  relevantLoc : Option String
  backtrace : Option Backtrace
  span : Span
  deriving DecidableEq, Repr

namespace PanicDetail

/-- `PanicDetail::new`: a message, with no location or backtrace. -/
def new (msg : String) : PanicDetail := ⟨msg, none, none, none, Span.dummy⟩

/-- `PanicDetail::has_backtrace`. -/
def hasBacktrace (d : PanicDetail) : Bool := d.backtrace.isSome

/-- `PanicDetail::to_string_short`. -/
def toStringShort (d : PanicDetail) : String :=
  (d.relevantLoc.or d.loc).getD "[unknown]" ++ ": " ++ d.msg.trim

/-- `PanicDetail::to_string_full`, with the `Debug` texts of a span and of a
backtrace as parameters. -/
def toStringFull (showSpan : Span → String) (showBacktrace : Backtrace → String)
    (d : PanicDetail) : String :=
  "panic at " ++ d.loc.getD "[unknown]" ++ ": " ++ d.msg ++ "\n" ++
    (match d.relevantLoc with
      | some l => "related location: " ++ l ++ "\n"
      | none => "") ++
    (if d.span = Span.dummy then "" else "source location: " ++ showSpan d.span ++ "\n") ++
    (match d.backtrace with
      | some bt => showBacktrace bt ++ "\n"
      | none => "")

end PanicDetail

/-- `str::contains` for a pattern string. -/
def containsStr (s pat : String) : Bool := s.toList.tails.any (pat.toList.isPrefixOf ·)

/-- The functions `guess_relevant_loc` stops at. -/
def relevantName (name : String) : Bool :=
  name.startsWith "c2rust_analyze::dataflow" || name.startsWith "c2rust_analyze::borrowck" ||
    name.startsWith "c2rust_analyze::rewrite" || containsStr name "type_of_rvalue" ||
    containsStr name "TypeOf" || containsStr name "lty_project"

/-- `guess_relevant_loc`: the first symbol, over the frames in order, whose
name is relevant, as `name @ file:line:col`. -/
def guessRelevantLoc (bt : Backtrace) : Option String :=
  bt.flatten.findSome? fun sym =>
    match sym.name with
    | none => none
    | some name =>
      if relevantName name then
        some (name ++ " @ " ++ sym.filename.getD "[unknown]" ++ ":" ++
          toString (sym.lineno.getD 0) ++ ":" ++ toString (sym.colno.getD 0))
      else none

/-- A panic payload: a `&'static str`, a `String`, or a value of another
type, known by the `Debug` text of its `TypeId`. -/
inductive Payload
  | str (s : String)
  | string (s : String)
  | other (typeId : String)
  deriving DecidableEq, Repr

/-- `panic_to_string`. -/
def panicToString : Payload → String
  | .str s | .string s => s
  | .other typeId => "unknown error: " ++ typeId

/-- `std::panic::PanicInfo`: the payload and the location, as text. -/
structure PanicInfo where
  payload : Payload
  location : Option String
  deriving DecidableEq, Repr

/-! ### The two cells -/

/-- The thread-local cells `CURRENT_PANIC_DETAIL` and `CURRENT_SPAN`. -/
structure Cells where
  currentPanicDetail : Option PanicDetail
  currentSpan : Span
  deriving DecidableEq, Repr

/-- The detail `panic_hook` builds for a panic seen at span `span`. -/
def hookDetail (info : PanicInfo) (bt : Backtrace) (span : Span) : PanicDetail :=
  ⟨panicToString info.payload, info.location, guessRelevantLoc bt, some bt, span⟩

/-- `panic_hook`, with `bt` the backtrace it captures: the new detail
replaces the stored one, which is discarded. -/
def panicHook (info : PanicInfo) (bt : Backtrace) (c : Cells) : Cells :=
  { c with currentPanicDetail := some (hookDetail info bt c.currentSpan) }

/-- `take_current`. -/
def takeCurrent (c : Cells) : Option PanicDetail × Cells :=
  (c.currentPanicDetail, { c with currentPanicDetail := none })

/-- `catch_unwind`, given what `f` did: returned, or unwound with a payload. -/
def catchUnwind {α : Type} (r : Except Payload α) (c : Cells) : Except PanicDetail α × Cells :=
  match r with
  | .ok a => (.ok a, c)
  | .error e =>
    ((takeCurrent c).1.getD (PanicDetail.new (panicToString e)) |> .error, (takeCurrent c).2)

/-- `CurrentSpanGuard`. -/
structure CurrentSpanGuard where
  old : Span
  deriving DecidableEq, Repr

/-- `set_current_span`. -/
def setCurrentSpan (span : Span) (c : Cells) : CurrentSpanGuard × Cells :=
  (⟨c.currentSpan⟩, { c with currentSpan := span })

/-- `impl Drop for CurrentSpanGuard`. -/
def CurrentSpanGuard.drop (g : CurrentSpanGuard) (c : Cells) : Cells :=
  { c with currentSpan := g.old }

/-! ### A thread's work -/

/-- The work of a thread, as far as the two cells see it. -/
inductive Task
  /-- A panic, with the backtrace the hook captures. -/
  | panic (info : PanicInfo) (bt : Backtrace)
  /-- `let _guard = set_current_span(span);` and then `body`, in order. -/
  | withSpan (span : Span) (body : List Task)
  /-- `catch_unwind(|| body)`. -/
  | catchUnwind (body : List Task)

/-- What a run leaves: the cells, the result of each `catch_unwind` that
returned, in order, and the payload of the panic still unwinding. -/
structure Outcome where
  cells : Cells
  caught : List (Except PanicDetail Unit)
  escaped : Option Payload

mutual
/-- Run a task. A panic runs the hook and unwinds; a guard is dropped on
the way out, whether the body returned or unwound. -/
def Task.run : Task → Cells → Outcome
  | .panic info bt, c => ⟨panicHook info bt c, [], some info.payload⟩
  | .withSpan span body, c =>
    let o := runAll body (setCurrentSpan span c).2
    { o with cells := (setCurrentSpan span c).1.drop o.cells }
  | .catchUnwind body, c =>
    let o := runAll body c
    let r := catchUnwind (match o.escaped with | some e => .error e | none => .ok ()) o.cells
    ⟨r.2, o.caught ++ [r.1], none⟩

/-- Run tasks in order; a panic skips the rest. -/
def runAll : List Task → Cells → Outcome
  | [], c => ⟨c, [], none⟩
  | t :: ts, c =>
    match t.run c with
    | ⟨c', caught, some e⟩ => ⟨c', caught, some e⟩
    | ⟨c', caught, none⟩ =>
      let o := runAll ts c'
      ⟨o.cells, caught ++ o.caught, o.escaped⟩
end

/-! ### What the tree fixes -/

mutual
/-- The panic that escapes a task begun at span `s`, with the span it saw. -/
def Task.escape : Task → Span → Option (PanicInfo × Backtrace × Span)
  | .panic info bt, s => some (info, bt, s)
  | .withSpan span body, _ => escapeAll body span
  | .catchUnwind _, _ => none

/-- The panic that escapes tasks run in order. -/
def escapeAll : List Task → Span → Option (PanicInfo × Backtrace × Span)
  | [], _ => none
  | t :: ts, s => (t.escape s).or (escapeAll ts s)
end

/-- What a `catch_unwind` returns, given the panic that escaped its body. -/
def caughtOf : Option (PanicInfo × Backtrace × Span) → Except PanicDetail Unit
  | some (info, bt, s) => .error (hookDetail info bt s)
  | none => .ok ()

mutual
/-- The results of the `catch_unwind`s of a task begun at span `s` that return. -/
def Task.caughtSpec : Task → Span → List (Except PanicDetail Unit)
  | .panic .., _ => []
  | .withSpan span body, _ => caughtAll body span
  | .catchUnwind body, s => caughtAll body s ++ [caughtOf (escapeAll body s)]

/-- The results of the `catch_unwind`s of tasks run in order that return. -/
def caughtAll : List Task → Span → List (Except PanicDetail Unit)
  | [], _ => []
  | t :: ts, s => t.caughtSpec s ++ if (t.escape s).isSome then [] else caughtAll ts s
end

/-- A run agrees with the tree: the span is back, the results and the
escaping panic are the tree's, and the stored detail is the hook's for the
escaping panic. -/
def Agrees (o : Outcome) (c : Cells) (caught : List (Except PanicDetail Unit))
    (esc : Option (PanicInfo × Backtrace × Span)) : Prop :=
  o.cells.currentSpan = c.currentSpan ∧ o.caught = caught ∧
    o.escaped = esc.map (·.1.payload) ∧
    ∀ e ∈ esc, o.cells.currentPanicDetail = some (hookDetail e.1 e.2.1 e.2.2)

/-- A result is not `PanicDetail::new`'s fallback: an error carries a backtrace. -/
def fromHook : Except PanicDetail Unit → Bool
  | .error d => d.hasBacktrace
  | .ok () => true

mutual
theorem caughtSpec_fromHook : ∀ (t : Task) (s : Span), (t.caughtSpec s).all fromHook = true
  | .panic .., _ => rfl
  | .withSpan _ body, _ => caughtAll_fromHook body _
  | .catchUnwind body, s => by
    have h : fromHook (caughtOf (escapeAll body s)) = true := by
      cases escapeAll body s <;> rfl
    simpa [Task.caughtSpec, h] using caughtAll_fromHook body s

theorem caughtAll_fromHook : ∀ (ts : List Task) (s : Span), (caughtAll ts s).all fromHook = true
  | [], _ => rfl
  | t :: ts, s => by
    have h1 := caughtSpec_fromHook t s
    have h2 := caughtAll_fromHook ts s
    unfold caughtAll
    split_ifs <;> simp_all
end

mutual
theorem run_spec : ∀ (t : Task) (c : Cells),
    Agrees (t.run c) c (t.caughtSpec c.currentSpan) (t.escape c.currentSpan)
  | .panic info bt, c => by
    simp [Agrees, Task.run, Task.caughtSpec, Task.escape, panicHook]
  | .withSpan span body, c => by
    obtain ⟨h1, h2, h3, h4⟩ := runAll_spec body (setCurrentSpan span c).2
    simp only [setCurrentSpan] at h1 h2 h3 h4
    refine ⟨rfl, ?_, ?_, fun e he => ?_⟩ <;>
      simp only [Task.run, Task.caughtSpec, Task.escape, CurrentSpanGuard.drop, setCurrentSpan]
    · exact h2
    · exact h3
    · exact h4 e he
  | .catchUnwind body, c => by
    obtain ⟨h1, h2, h3, h4⟩ := runAll_spec body c
    refine ⟨?_, ?_, rfl, fun e he => nomatch he⟩ <;>
      simp only [Task.run, Task.caughtSpec, catchUnwind, takeCurrent]
    · split <;> exact h1
    · rw [h2]
      cases hesc : escapeAll body c.currentSpan with
      | none => simp [hesc] at h3; simp [h3, caughtOf]
      | some e => simp [hesc] at h3 h4; simp [h3, h4, caughtOf]

theorem runAll_spec : ∀ (ts : List Task) (c : Cells),
    Agrees (runAll ts c) c (caughtAll ts c.currentSpan) (escapeAll ts c.currentSpan)
  | [], c => by simp [Agrees, runAll, caughtAll, escapeAll]
  | t :: ts, c => by
    obtain ⟨h1, h2, h3, h4⟩ := run_spec t c
    unfold runAll
    generalize t.run c = o at h1 h2 h3 h4 ⊢
    obtain ⟨c', caught, escaped⟩ := o
    cases hesc : t.escape c.currentSpan with
    | some e =>
      simp only [hesc, Option.map_some'] at h3 h4
      subst h3
      simp_all [Agrees, caughtAll, escapeAll]
    | none =>
      simp only [hesc, Option.map_none'] at h3
      subst h3
      simp only at h1 h2
      obtain ⟨g1, g2, g3, g4⟩ := runAll_spec ts c'
      rw [h1] at g1 g2 g3 g4
      exact ⟨g1, by simp [caughtAll, hesc, h2, g2], by simp [escapeAll, hesc, g3],
        by simpa [escapeAll, hesc] using g4⟩
end

/-- **Guards and `catch_unwind` follow the tree.** Running a thread's work
from any cells: every span guard puts the span back, on every path
unwinding included; each `catch_unwind` returns the detail the hook built
for the panic that escaped its body, with the span of the innermost guard
alive at that panic, so the fallback to `PanicDetail::new` never runs; and
the panic that escapes is the tree's. -/
theorem run_eq_spec (t : Task) (c : Cells) :
    (t.run c).cells.currentSpan = c.currentSpan ∧
      (t.run c).caught = t.caughtSpec c.currentSpan ∧
      (t.run c).caught.all fromHook = true ∧
      (t.run c).escaped = (t.escape c.currentSpan).map (·.1.payload) :=
  let ⟨h1, h2, h3, _⟩ := run_spec t c
  ⟨h1, h2, h2 ▸ caughtSpec_fromHook t _, h3⟩

/-! ### The detail cell between panics -/

mutual
/-- A run from an empty detail cell that no panic escapes leaves it empty. -/
theorem run_detail_none : ∀ (t : Task) (c : Cells), c.currentPanicDetail = none →
    (t.run c).escaped = none → (t.run c).cells.currentPanicDetail = none
  | .panic .., _, _, h => nomatch h
  | .withSpan span body, c, hc, h => runAll_detail_none body (setCurrentSpan span c).2 hc h
  | .catchUnwind body, c, hc, _ => by
    simp only [Task.run]
    cases hesc : (runAll body c).escaped with
    | none => exact runAll_detail_none body c hc hesc
    | some e => rfl

theorem runAll_detail_none : ∀ (ts : List Task) (c : Cells), c.currentPanicDetail = none →
    (runAll ts c).escaped = none → (runAll ts c).cells.currentPanicDetail = none
  | [], _, hc, _ => hc
  | t :: ts, c, hc, h => by
    have ht := run_detail_none t c hc
    unfold runAll at h ⊢
    generalize t.run c = o at ht h ⊢
    obtain ⟨c', caught, escaped⟩ := o
    cases escaped with
    | some e => nomatch h
    | none => exact runAll_detail_none ts c' (ht rfl) h
end

/-- **The detail cell holds the escaping panic's detail, and nothing else.**
From an empty cell, a run leaves in `CURRENT_PANIC_DETAIL` exactly the
detail the hook built for the panic that escapes, and nothing when none
does: between panics the cell is empty, so the hook never discards an old
detail and `take_current` never returns a stale one. -/
theorem run_detail_cell (t : Task) (c : Cells) (hc : c.currentPanicDetail = none) :
    (t.run c).cells.currentPanicDetail =
      (t.escape c.currentSpan).map fun e => hookDetail e.1 e.2.1 e.2.2 := by
  obtain ⟨-, -, hesc, hdet⟩ := run_spec t c
  cases he : t.escape c.currentSpan with
  | none => exact run_detail_none t c hc (by rw [hesc, he]; rfl)
  | some e => exact hdet e (he ▸ rfl)

/-- A panic caught at once leaves the cell empty. -/
theorem caught_panic_clears :
    (⟨none, Span.dummy⟩ : Cells).currentPanicDetail = none ∧
      (Task.run (.catchUnwind [.panic ⟨.str "boom", none⟩ []]) ⟨none, Span.dummy⟩).cells.currentPanicDetail =
        ((Task.catchUnwind [.panic ⟨.str "boom", none⟩ []]).escape Span.dummy).map
          fun e => hookDetail e.1 e.2.1 e.2.2 :=
  ⟨rfl, run_detail_cell _ ⟨none, Span.dummy⟩ rfl⟩

end Panics

end C2RustRewrite
