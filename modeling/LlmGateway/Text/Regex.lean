import Mathlib.Data.List.Basic

/-!
# Regular expressions by backtracking

A fragment of Python's `re`: literal text, classes of characters, a greedy `[…]*`, groups, and `$`.
`Pattern.matchesAt` lists the matches at the start of a string in the order in which a backtracking
matcher finds them, so the first of the list is the one `re` takes. `Regex.subn` scans a string and
replaces what matches.

A class that is repeated before something that cannot start with one of its characters never
backtracks (`matchesAt_many_seq`), which is how the matches of a concrete pattern are found.
-/

namespace Regex

/-- A pattern. -/
inductive Pattern where
  /-- the characters themselves -/
  | text (cs : List Char)
  /-- one character of a class -/
  | one (p : Char → Bool)
  /-- `[…]*` -/
  | many (p : Char → Bool)
  | seq (a b : Pattern)
  /-- `(…)` -/
  | group (a : Pattern)
  /-- `$` -/
  | stop

/-- A match at the start of a string: its text, its groups in order, and what follows it. -/
structure Match where
  text : List Char
  groups : List (List Char)
  rest : List Char

namespace Match

/-- The match with one more character in front. -/
def cons (c : Char) (m : Match) : Match := { m with text := c :: m.text }

/-- A match, and another one where it ends. -/
def andThen (m m' : Match) : Match := ⟨m.text ++ m'.text, m.groups ++ m'.groups, m'.rest⟩

/-- `m.group(i)`. -/
def group (m : Match) (i : ℕ) : List Char := (m.groups[i - 1]?).getD []

end Match

/-- The matches of `[…]*`, the longest first. -/
def manyMatches (p : Char → Bool) : List Char → List Match
  | [] => [⟨[], [], []⟩]
  | c :: s =>
    (if p c then (manyMatches p s).map (Match.cons c) else []) ++ [⟨[], [], c :: s⟩]

namespace Pattern

/-- The matches at the start of `s`, in the order in which they are tried. -/
def matchesAt : Pattern → List Char → List Match
  | .text cs, s => if cs <+: s then [⟨cs, [], s.drop cs.length⟩] else []
  | .one _, [] => []
  | .one p, c :: s => if p c then [⟨[c], [], s⟩] else []
  | .many p, s => manyMatches p s
  | .seq a b, s => (a.matchesAt s).flatMap fun m => (b.matchesAt m.rest).map m.andThen
  | .group a, s => (a.matchesAt s).map fun m => { m with groups := m.text :: m.groups }
  | .stop, s => if s = [] ∨ s = ['\n'] then [⟨[], [], s⟩] else []

section Equations

variable {a b : Pattern} {p : Char → Bool} {c : Char} {s cs : List Char}

theorem matchesAt_text :
    (text cs).matchesAt s = if cs <+: s then [⟨cs, [], s.drop cs.length⟩] else [] := rfl

theorem matchesAt_one : (one p).matchesAt (c :: s) = if p c then [⟨[c], [], s⟩] else [] := rfl

theorem matchesAt_seq : (seq a b).matchesAt s =
    (a.matchesAt s).flatMap fun m => (b.matchesAt m.rest).map m.andThen := rfl

theorem matchesAt_group : (group a).matchesAt s =
    (a.matchesAt s).map fun m => { m with groups := m.text :: m.groups } := rfl

theorem matchesAt_stop :
    stop.matchesAt s = if s = [] ∨ s = ['\n'] then [⟨[], [], s⟩] else [] := rfl

end Equations

/-- A bound from below on the length of a match. -/
def minLength : Pattern → ℕ
  | .text cs => cs.length
  | .one _ => 1
  | .many _ => 0
  | .seq a b => a.minLength + b.minLength
  | .group a => a.minLength
  | .stop => 0

/-! ## Where a match lies -/

theorem append_of_mem_manyMatches {p : Char → Bool} {s : List Char} {m : Match}
    (h : m ∈ manyMatches p s) : m.text ++ m.rest = s := by
  induction s generalizing m with
  | nil =>
    obtain rfl := List.mem_singleton.mp h
    rfl
  | cons c s ih =>
    rcases List.mem_append.mp h with h | h
    · split at h
      · obtain ⟨m', hm', rfl⟩ := List.mem_map.mp h
        exact congrArg (c :: ·) (ih hm')
      · cases h
    · obtain rfl := List.mem_singleton.mp h
      rfl

/-- A match and what follows it make up the string. -/
theorem append_of_mem {a : Pattern} {s : List Char} {m : Match} (h : m ∈ a.matchesAt s) :
    m.text ++ m.rest = s := by
  induction a generalizing s m with
  | text cs =>
    rw [matchesAt_text] at h
    split at h
    · next hcs =>
      obtain rfl := List.mem_singleton.mp h
      exact List.prefix_iff_eq_append.mp hcs
    · cases h
  | one p =>
    cases s with
    | nil => cases h
    | cons c s =>
      rw [matchesAt_one] at h
      split at h
      · obtain rfl := List.mem_singleton.mp h
        rfl
      · cases h
  | many p => exact append_of_mem_manyMatches h
  | seq a b iha ihb =>
    obtain ⟨m₁, h₁, h⟩ := List.mem_flatMap.mp h
    obtain ⟨m₂, h₂, rfl⟩ := List.mem_map.mp h
    calc (m₁.text ++ m₂.text) ++ m₂.rest = m₁.text ++ (m₂.text ++ m₂.rest) :=
          List.append_assoc _ _ _
      _ = m₁.text ++ m₁.rest := by rw [ihb h₂]
      _ = s := iha h₁
  | group a ih =>
    obtain ⟨m', h', rfl⟩ := List.mem_map.mp h
    show m'.text ++ m'.rest = s
    exact ih h'
  | stop =>
    rw [matchesAt_stop] at h
    split at h
    · obtain rfl := List.mem_singleton.mp h
      rfl
    · cases h

theorem minLength_le {a : Pattern} {s : List Char} {m : Match} (h : m ∈ a.matchesAt s) :
    a.minLength ≤ m.text.length := by
  induction a generalizing s m with
  | text cs =>
    rw [matchesAt_text] at h
    split at h
    · obtain rfl := List.mem_singleton.mp h
      exact Nat.le_refl _
    · cases h
  | one p =>
    cases s with
    | nil => cases h
    | cons c s =>
      rw [matchesAt_one] at h
      split at h
      · obtain rfl := List.mem_singleton.mp h
        exact Nat.le_refl _
      · cases h
  | many p => exact Nat.zero_le _
  | seq a b iha ihb =>
    obtain ⟨m₁, h₁, h⟩ := List.mem_flatMap.mp h
    obtain ⟨m₂, h₂, rfl⟩ := List.mem_map.mp h
    have h₁ := iha h₁
    have h₂ := ihb h₂
    rw [minLength, Match.andThen, List.length_append]
    omega
  | group a ih =>
    obtain ⟨m', h', rfl⟩ := List.mem_map.mp h
    show a.minLength ≤ m'.text.length
    exact ih h'
  | stop => exact Nat.zero_le _

/-! ## Matching piece by piece -/

variable {a b : Pattern} {p : Char → Bool} {c : Char} {s cs : List Char}

theorem matchesAt_text_append : (text cs).matchesAt (cs ++ s) = [⟨cs, [], s⟩] := by
  rw [matchesAt_text, if_pos (List.prefix_append _ _), List.drop_left]

theorem matchesAt_text_of_not (h : ¬ cs <+: s) : (text cs).matchesAt s = [] := by
  rw [matchesAt_text, if_neg h]

theorem matchesAt_one_of_pos (h : p c = true) : (one p).matchesAt (c :: s) = [⟨[c], [], s⟩] := by
  rw [matchesAt_one, if_pos h]

theorem matchesAt_one_of_neg (h : ¬ p c = true) : (one p).matchesAt (c :: s) = [] := by
  rw [matchesAt_one, if_neg h]

theorem matchesAt_seq_of_single {m : Match} (h : a.matchesAt s = [m]) :
    (seq a b).matchesAt s = (b.matchesAt m.rest).map m.andThen := by
  rw [matchesAt_seq, h, List.flatMap_singleton]

theorem matchesAt_seq_of_nil (h : a.matchesAt s = []) : (seq a b).matchesAt s = [] := by
  rw [matchesAt_seq, h, List.flatMap_nil]

/-- A class is repeated as often as it can be, where what comes next cannot start with one of its
characters. -/
theorem matchesAt_many_seq (h : ∀ c s, p c = true → b.matchesAt (c :: s) = []) :
    (seq (many p) b).matchesAt s =
      (b.matchesAt (s.dropWhile p)).map
        (Match.andThen ⟨s.takeWhile p, [], s.dropWhile p⟩) := by
  rw [matchesAt_seq]
  show (manyMatches p s).flatMap _ = _
  induction s with
  | nil => simp [manyMatches]
  | cons c s ih =>
    by_cases hc : p c = true
    · have hstop : (b.matchesAt (c :: s)).map (Match.andThen ⟨[], [], c :: s⟩) = [] := by
        rw [h c s hc, List.map_nil]
      rw [manyMatches, if_pos hc, List.flatMap_append, List.flatMap_singleton, hstop,
        List.append_nil, List.flatMap_map, List.dropWhile_cons_of_pos hc,
        List.takeWhile_cons_of_pos hc]
      have hcons := congrArg (List.map (Match.cons c)) ih
      rw [List.map_flatMap, List.map_map] at hcons
      simp only [List.map_map] at hcons
      exact hcons
    · rw [manyMatches, if_neg hc, List.nil_append, List.flatMap_singleton,
        List.dropWhile_cons_of_neg hc, List.takeWhile_cons_of_neg hc]

/-- A class is repeated up to the first character that is not in it. -/
theorem matchesAt_many_seq_append {x : List Char}
    (h : ∀ c s, p c = true → b.matchesAt (c :: s) = []) (hx : ∀ d ∈ x, p d = true)
    (hc : ¬ p c = true) :
    (seq (many p) b).matchesAt (x ++ c :: s) =
      (b.matchesAt (c :: s)).map (Match.andThen ⟨x, [], c :: s⟩) := by
  rw [matchesAt_many_seq h, List.takeWhile_append_of_pos hx, List.dropWhile_append_of_pos hx,
    List.takeWhile_cons_of_neg hc, List.dropWhile_cons_of_neg hc, List.append_nil]

theorem matchesAt_text_cons_of_ne {d : Char} (h : c ≠ d) :
    (text (d :: cs)).matchesAt (c :: s) = [] :=
  matchesAt_text_of_not fun hcs => h (List.cons_prefix_cons.mp hcs).1.symm

end Pattern

end Regex

/-! ## Substitution -/

/-- A pattern that matches no empty text. -/
structure Regex where
  pattern : Regex.Pattern
  pos : 0 < pattern.minLength

namespace Regex

/-- The match that `re` finds at the start of `s`. -/
def match? (r : Regex) (s : List Char) : Option Match := (r.pattern.matchesAt s).head?

variable {r : Regex} {s : List Char}

theorem append_of_match? {m : Match} (h : r.match? s = some m) : m.text ++ m.rest = s :=
  Pattern.append_of_mem (List.mem_of_mem_head? h)

theorem length_rest_lt {m : Match} (h : r.match? s = some m) : m.rest.length < s.length := by
  have hlen := Pattern.minLength_le (List.mem_of_mem_head? h)
  have hpos := r.pos
  have happend := congrArg List.length (append_of_match? h)
  rw [List.length_append] at happend
  omega

theorem match?_nil : r.match? [] = none := by
  cases h : r.match? [] with
  | none => rfl
  | some m => exact absurd (length_rest_lt h) (Nat.not_lt_zero _)

/-- `re.subn`: the string with every match replaced, and the number of the matches. -/
def subn (r : Regex) (repl : Match → List Char) (s : List Char) : List Char × ℕ :=
  match h : r.match? s with
  | some m =>
    let o := subn r repl m.rest
    (repl m ++ o.1, o.2 + 1)
  | none =>
    match s with
    | [] => ([], 0)
    | c :: s =>
      let o := subn r repl s
      (c :: o.1, o.2)
termination_by s.length
decreasing_by
  · exact length_rest_lt h
  · exact Nat.lt_succ_self _

/-- `re.sub`. -/
def sub (r : Regex) (repl : Match → List Char) (s : List Char) : List Char := (r.subn repl s).1

variable {repl : Match → List Char}

theorem subn_nil : r.subn repl [] = ([], 0) := by
  rw [subn]
  split
  · next m h =>
    rw [match?_nil] at h
    cases h
  · rfl

theorem subn_of_match? {m : Match} (h : r.match? s = some m) :
    r.subn repl s = (repl m ++ (r.subn repl m.rest).1, (r.subn repl m.rest).2 + 1) := by
  rw [subn]
  split
  · next m' h' =>
    obtain rfl := Option.some.inj (h.symm.trans h')
    rfl
  · next h' =>
    rw [h] at h'
    cases h'

theorem subn_cons_of_none {c : Char} (h : r.match? (c :: s) = none) :
    r.subn repl (c :: s) = (c :: (r.subn repl s).1, (r.subn repl s).2) := by
  rw [subn]
  split
  · next m h' =>
    rw [h] at h'
    cases h'
  · rfl

/-- Text in which no match begins is left as it is. -/
theorem subn_append {l : List Char}
    (h : ∀ x y, l = x ++ y → y ≠ [] → r.match? (y ++ s) = none) :
    r.subn repl (l ++ s) = (l ++ (r.subn repl s).1, (r.subn repl s).2) := by
  induction l with
  | nil => rfl
  | cons c l ih =>
    have hc : r.match? (c :: (l ++ s)) = none := h [] (c :: l) rfl (List.cons_ne_nil _ _)
    rw [List.cons_append, subn_cons_of_none hc, ih fun x y hl => h (c :: x) y (by rw [hl]; rfl)]
    rfl

/-- A string in which no match begins is left as it is. -/
theorem subn_eq_self (h : ∀ x y, s = x ++ y → y ≠ [] → r.match? y = none) :
    r.subn repl s = (s, 0) := by
  have hnil : r.subn repl (s ++ []) = (s ++ (r.subn repl []).1, (r.subn repl []).2) :=
    subn_append fun x y hs hy => by simpa using h x y hs hy
  simpa [subn_nil] using hnil

end Regex
