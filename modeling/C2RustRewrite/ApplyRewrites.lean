/-
# The debug dump of `apply_rewrites`

`rewrite::apply_rewrites` hands the rewrites to the splicer of
`rewrite/apply.rs`, which is not under `src/`, and prints every file the
splicer returns to stderr, between two banners, one line at a time. Its
comment says FileCheck would match a directive such as `// CHECK: foo`
against its own copy in that output; so a line that holds the text
`// CHECK` is printed up to its first occurrence, followed by a note. Only
that spelling is cut: `//CHECK: foo` or `/* CHECK: foo */` is printed as it
stands.

This module models the printing, over the file names (as their `Debug`
text) and contents the splicer returns: `str::lines`, `str::split_once`
and the loop. A line is printed unchanged unless it holds `// CHECK`, and
no printed line holds `// CHECK` (`printedLine_spec`); the whole dump holds
none, for file names that hold none (`applyRewrites_no_directive`).

Key definitions: `strLines`, `splitOnce`, `printedLine`, `dumpFile`, `applyRewrites`.
Key theorems: `infix_append_cases`, `splitOnce_some`, `splitOnce_none`,
`printedLine_spec`, `applyRewrites_no_directive`.
-/
import Mathlib.Data.List.Infix

namespace C2RustRewrite

/-! ### Occurrences across a join -/

section Infix

variable {pat a b : List Char}

/-- An occurrence in `a ++ b` lies in `a`, in `b`, or across the join. -/
theorem infix_append_cases (h : pat <:+: a ++ b) :
    pat <:+: a ∨ pat <:+: b ∨
      ∃ k, 0 < k ∧ k < pat.length ∧ pat.take k <:+ a ∧ pat.drop k <+: b := by
  obtain ⟨s, t, hst⟩ := h
  rcases List.append_eq_append_iff.1 hst with ⟨a', rfl, -⟩ | ⟨c', hc, rfl⟩
  · exact .inl ⟨s, a', rfl⟩
  rcases List.append_eq_append_iff.1 hc with ⟨d, rfl, rfl⟩ | ⟨e, rfl, rfl⟩
  · by_cases hd : d = []
    · subst hd; exact .inr (.inl ⟨[], t, by simp⟩)
    by_cases hc' : c' = []
    · subst hc'; exact .inl ⟨s, [], by simp⟩
    refine .inr (.inr ⟨d.length, List.length_pos.2 hd, ?_, ?_, ?_⟩)
    · simpa using List.length_pos.2 hc'
    · simp
    · simp
  · exact .inr (.inl ⟨e, t, by simp⟩)

/-- No occurrence in `a ++ b` when there is none in either and none across the join. -/
theorem not_infix_append (ha : ¬ pat <:+: a) (hb : ¬ pat <:+: b)
    (hjoin : ∀ k, 0 < k → k < pat.length → pat.take k <:+ a → ¬ pat.drop k <+: b) :
    ¬ pat <:+: a ++ b := fun h => by
  rcases infix_append_cases h with h | h | ⟨k, hk0, hk, hs, hp⟩
  exacts [ha h, hb h, hjoin k hk0 hk hs hp]

/-- No occurrence in `pre ++ mid ++ post` when the texts around `mid` begin
and end no occurrence. -/
theorem not_infix_around {pre mid post : List Char} (hpre : ¬ pat <:+: pre) (hmid : ¬ pat <:+: mid)
    (hpost : ¬ pat <:+: post) (hl : ∀ k < pat.length, 0 < k → ¬ pat.take k <:+ pre)
    (hr : ∀ k < pat.length, 0 < k → ¬ pat.drop k <+: post) : ¬ pat <:+: pre ++ mid ++ post :=
  not_infix_append (not_infix_append hpre hmid fun k h0 hk hs _ => hl k hk h0 hs) hpost
    fun k h0 hk _ => hr k hk h0

/-- Nothing occurs across a join after a character the pattern lacks. -/
theorem not_infix_append_of_getLast {c : Char} (hc : c ∉ pat) (hlast : a.getLast? = some c)
    (ha : ¬ pat <:+: a) (hb : ¬ pat <:+: b) : ¬ pat <:+: a ++ b :=
  not_infix_append ha hb fun k hk0 hk ⟨s, hs⟩ _ => by
    have hne : pat.take k ≠ [] := fun h => by
      rcases List.take_eq_nil_iff.1 h with h | h
      · omega
      · simp [h] at hk
    rw [← hs, List.getLast?_append_of_ne_nil _ hne] at hlast
    exact hc (List.mem_of_mem_take (List.mem_of_getLast?_eq_some hlast))

/-- Texts that each end in a newline and lack the pattern, one after another. -/
theorem not_infix_flatten (hn : '\n' ∉ pat) (hpat : pat ≠ []) :
    ∀ L : List (List Char), (∀ x ∈ L, ¬ pat <:+: x ∧ x.getLast? = some '\n') → ¬ pat <:+: L.flatten
  | [], _ => by simpa [List.infix_nil] using hpat
  | x :: L, h => by
    rw [List.flatten_cons]
    exact not_infix_append_of_getLast hn (h x (List.mem_cons_self _ _)).2
      (h x (List.mem_cons_self _ _)).1 (not_infix_flatten hn hpat L fun y hy => h y (List.mem_cons_of_mem _ hy))

end Infix

/-! ### `str::lines` and `str::split_once` -/

/-- A line without its trailing `\r`. -/
def stripCR (line : List Char) : List Char :=
  if line.getLast? = some '\r' then line.dropLast else line

/-- `str::lines`: the text split at `\n`, without an empty last piece
(`split_terminator`), each line without a trailing `\r`. -/
def strLines (s : List Char) : List (List Char) :=
  let pieces := s.splitOn '\n'
  (if pieces.getLast? = some [] then pieces.dropLast else pieces).map stripCR

/-- `str::split_once` with a string pattern: the text before the first
occurrence of `pat`, and the text after it. -/
def splitOnce (pat : List Char) (s : List Char) : Option (List Char × List Char) :=
  if pat.isPrefixOf s then some ([], s.drop pat.length)
  else
    match s with
    | [] => none
    | c :: s' => (splitOnce pat s').map fun p => (c :: p.1, p.2)

section SplitOnce

variable {pat : List Char}

theorem splitOnce_some (hpat : pat ≠ []) :
    ∀ {s pre post : List Char}, splitOnce pat s = some (pre, post) →
      s = pre ++ pat ++ post ∧ ¬ pat <:+: pre
  | s, pre, post, h => by
    unfold splitOnce at h
    split at h
    · rename_i hp
      obtain ⟨rfl, rfl⟩ := Prod.mk.inj (Option.some.inj h).symm
      exact ⟨by simpa using (List.prefix_iff_eq_append.1 (List.isPrefixOf_iff_prefix.1 hp)).symm,
        by simpa [List.infix_nil] using hpat⟩
    · rename_i hp
      split at h
      · cases h
      · rename_i c s'
        obtain ⟨⟨pre', post'⟩, h', he⟩ := Option.map_eq_some'.1 h
        obtain ⟨rfl, rfl⟩ := Prod.mk.inj he.symm
        obtain ⟨rfl, hpre⟩ := splitOnce_some hpat h'
        refine ⟨rfl, fun hi => ?_⟩
        rcases List.infix_cons_iff.1 hi with hpr | hi
        · exact hp (List.isPrefixOf_iff_prefix.2 (hpr.trans (by simp)))
        · exact hpre hi

theorem splitOnce_none (hpat : pat ≠ []) :
    ∀ {s : List Char}, splitOnce pat s = none ↔ ¬ pat <:+: s
  | s => by
    unfold splitOnce
    split
    · rename_i hp
      simpa using List.IsPrefix.isInfix (List.isPrefixOf_iff_prefix.1 hp)
    · rename_i hp
      split
      · simpa [List.infix_nil] using hpat
      · rename_i c s'
        rw [Option.map_eq_none', splitOnce_none hpat, List.infix_cons_iff]
        simp [← List.isPrefixOf_iff_prefix, hp]

end SplitOnce

/-! ### The loop -/

/-- The text `apply_rewrites` cuts a line at, as the test files spell a FileCheck directive. -/
def directive : List Char := "// CHECK".toList

/-- What replaces a line's directives. -/
def omittedNote : List Char := "// (FileCheck directive omitted)".toList

/-- The text `apply_rewrites` prints for one line of a rewritten file. -/
def printedLine (line : List Char) : List Char :=
  match splitOnce directive line with
  | some (pre, _) => pre ++ omittedNote
  | none => line

/-- What `apply_rewrites` writes to stderr for one file, given the `Debug`
text of its name and its rewritten contents. -/
def dumpFile (name src : List Char) : List Char :=
  "\n\n ===== BEGIN ".toList ++ name ++ " =====\n".toList ++
    ((strLines src).map fun line => printedLine line ++ ['\n']).flatten ++
    " ===== END ".toList ++ name ++ " =====\n".toList

/-- `apply_rewrites`' output, over the files the splicer returns. -/
def applyRewrites (newSrc : List (List Char × List Char)) : List Char :=
  (newSrc.map fun f => dumpFile f.1 f.2).flatten

theorem directive_ne_nil : directive ≠ [] := by decide

theorem newline_not_mem_directive : '\n' ∉ directive := by decide

/-- **One line.** A line without a directive is printed unchanged; a line
with one is printed up to its first directive, followed by the note; and no
printed line holds a directive. -/
theorem printedLine_spec (line : List Char) :
    ¬ directive <:+: printedLine line ∧ (¬ directive <:+: line → printedLine line = line) ∧
      (directive <:+: line → ∃ pre post, line = pre ++ directive ++ post ∧
        ¬ directive <:+: pre ∧ printedLine line = pre ++ omittedNote) := by
  unfold printedLine
  cases h : splitOnce directive line with
  | none =>
    have hn := (splitOnce_none directive_ne_nil).1 h
    exact ⟨hn, fun _ => rfl, fun hi => absurd hi hn⟩
  | some p =>
    obtain ⟨pre, post⟩ := p
    obtain ⟨rfl, hpre⟩ := splitOnce_some directive_ne_nil h
    have hnote : ∀ k < directive.length, 0 < k → ¬ directive.drop k <+: omittedNote := by decide
    exact ⟨not_infix_append hpre (by decide) fun k hk0 hk _ => hnote k hk hk0,
      fun hn => absurd ⟨pre, post, rfl⟩ hn, fun _ => ⟨pre, post, rfl, hpre, rfl⟩⟩

/-- The dump of a file, as its newline-terminated pieces: the opening
banner, the printed lines, the closing banner. -/
theorem dumpFile_eq (name src : List Char) :
    dumpFile name src = (("\n\n ===== BEGIN ".toList ++ name ++ " =====\n".toList) ::
      ((strLines src).map fun line => printedLine line ++ ['\n']) ++
        [" ===== END ".toList ++ name ++ " =====\n".toList]).flatten := by
  simp [dumpFile, List.flatten_append]

/-- The dump of one file holds no directive, if its name holds none. -/
theorem dumpFile_no_directive {name : List Char} (hname : ¬ directive <:+: name) (src : List Char) :
    ¬ directive <:+: dumpFile name src := by
  rw [dumpFile_eq]
  refine not_infix_flatten newline_not_mem_directive directive_ne_nil _ fun x hx => ?_
  simp only [List.cons_append, List.mem_cons, List.mem_append, List.mem_map,
    List.mem_singleton, List.mem_nil_iff, or_false] at hx
  have hnl : ∀ k < directive.length, 0 < k → ¬ directive.drop k <+: ['\n'] := by decide
  rcases hx with rfl | ⟨line, -, rfl⟩ | rfl
  · exact ⟨not_infix_around (by decide) hname (by decide) (by decide) (by decide),
      by rw [List.getLast?_append_of_ne_nil _ (by decide)]; rfl⟩
  · exact ⟨not_infix_append (printedLine_spec line).1 (by decide) fun k h0 hk _ => hnl k hk h0,
      by simp⟩
  · exact ⟨not_infix_around (by decide) hname (by decide) (by decide) (by decide),
      by rw [List.getLast?_append_of_ne_nil _ (by decide)]; rfl⟩

/-- **The dump holds no `// CHECK`.** Whatever files the splicer returns,
if no file name (as printed) holds `// CHECK`, the whole text
`apply_rewrites` writes to stderr holds none. -/
theorem applyRewrites_no_directive (newSrc : List (List Char × List Char))
    (hnames : ∀ f ∈ newSrc, ¬ directive <:+: f.1) : ¬ directive <:+: applyRewrites newSrc := by
  refine not_infix_flatten newline_not_mem_directive directive_ne_nil _ fun x hx => ?_
  obtain ⟨f, hf, rfl⟩ := List.mem_map.1 hx
  exact ⟨dumpFile_no_directive (hnames f hf) f.2, by
    rw [dumpFile, List.getLast?_append_of_ne_nil _ (by decide)]; rfl⟩

/-- A file `src/main.rs` holding a directive. -/
theorem main_no_directive :
    (∀ f ∈ [("\"src/main.rs\"".toList, "let x = 1; // CHECK: x\n".toList)],
      ¬ directive <:+: f.1) ∧
      ¬ directive <:+: applyRewrites [("\"src/main.rs\"".toList, "let x = 1; // CHECK: x\n".toList)] :=
  ⟨by decide, applyRewrites_no_directive _ (by decide)⟩

end C2RustRewrite
