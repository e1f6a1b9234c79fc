import LlmGateway.Scripts.RedisUrl
import LlmGateway.Text.Regex

/-!
# The scratch database of the benchmark

Mirrors `_scratch_redis_url` of `scripts/bench_overhead.py`, which puts `/14` in the place of an
index at the end of a URL, or at its end.

What is kept of a URL in front of the `/14` is `kept url`. It leaves alone whatever comes before the
last character that is neither a slash nor a digit, so in a URL with a query the path stays as it
was, and so does the index.
-/

namespace LlmGateway.BenchOverhead

open Str Regex Regex.Pattern

/-! ## `_scratch_redis_url` -/

/-- `f"/{_SCRATCH_DB}"` -/
def scratchPath : List Char := ['/', '1', '4']

/-- `/\d+$` -/
def indexAtEnd : Regex where
  pattern := .seq (.text ['/']) (.seq (.one isDecimal) (.seq (.many isDecimal) .stop))
  pos := by decide

/-- `_scratch_redis_url`. -/
def scratchRedisUrl (url : String) : String :=
  let swapped := indexAtEnd.subn (fun _ => scratchPath) url.toList
  String.ofList
    (if swapped.2 ≠ 0 then swapped.1 else url.toList.rdropWhile (· = '/') ++ scratchPath)

/-! ## Where the expression matches -/

section Matching

variable {s ds : List Char}

theorem matchesAt_digits :
    (seq (many isDecimal) stop).matchesAt s =
      (stop.matchesAt (s.dropWhile isDecimal)).map
        (Match.andThen ⟨s.takeWhile isDecimal, [], s.dropWhile isDecimal⟩) := by
  refine matchesAt_many_seq fun c s hc => ?_
  rw [matchesAt_stop, if_neg]
  rintro (h | h)
  · cases h
  · obtain ⟨rfl, -⟩ := List.cons.inj h
    exact absurd hc (by decide)

/-- A slash with decimal characters up to the end is a match. -/
theorem match?_index (hne : ds ≠ []) (hds : ∀ c ∈ ds, isDecimal c = true) :
    indexAtEnd.match? ('/' :: ds) = some ⟨'/' :: ds, [], []⟩ := by
  obtain ⟨d, ds, rfl⟩ := List.exists_cons_of_ne_nil hne
  obtain ⟨hd, hds⟩ := List.forall_mem_cons.mp hds
  have hdrop : ds.dropWhile isDecimal = [] := List.dropWhile_eq_nil_iff.mpr hds
  have htake : ds.takeWhile isDecimal = ds := List.takeWhile_eq_self_iff.mpr hds
  rw [Regex.match?, indexAtEnd, show '/' :: d :: ds = ['/'] ++ d :: ds from rfl,
    matchesAt_seq_of_single matchesAt_text_append,
    matchesAt_seq_of_single (matchesAt_one_of_pos hd), matchesAt_digits, hdrop, htake]
  simp [matchesAt_stop, Match.andThen]

/-- In one line, nothing else is. -/
theorem exists_of_match?_index {m : Match} (hline : '\n' ∉ s) (h : indexAtEnd.match? s = some m) :
    ∃ ds, s = '/' :: ds ∧ ds ≠ [] ∧ ∀ c ∈ ds, isDecimal c = true := by
  have hmatch : indexAtEnd.pattern.matchesAt s ≠ [] := List.ne_nil_of_mem (List.mem_of_mem_head? h)
  match s, hline, hmatch with
  | [], _, hmatch => exact absurd rfl hmatch
  | c :: s, hline, hmatch =>
    obtain rfl : c = '/' := by
      by_contra hc
      exact hmatch (matchesAt_seq_of_nil (matchesAt_text_cons_of_ne hc))
    refine ⟨s, rfl, ?_⟩
    rw [indexAtEnd, show '/' :: s = ['/'] ++ s from rfl,
      matchesAt_seq_of_single matchesAt_text_append, Ne, List.map_eq_nil_iff] at hmatch
    match s, hline, hmatch with
    | [], _, hmatch => exact absurd rfl hmatch
    | d :: ds, hline, hmatch =>
      have hd : isDecimal d = true := by
        by_contra hd
        exact hmatch (matchesAt_seq_of_nil (matchesAt_one_of_neg hd))
      rw [matchesAt_seq_of_single (matchesAt_one_of_pos hd), List.map_eq_nil_iff, matchesAt_digits,
        List.map_eq_nil_iff, matchesAt_stop] at hmatch
      have hend : ds.dropWhile isDecimal = [] ∨ ds.dropWhile isDecimal = ['\n'] := by
        by_contra hend
        exact hmatch (if_neg hend)
      have hnil : ds.dropWhile isDecimal = [] := by
        refine hend.resolve_right fun hbreak => hline ?_
        have hmem : '\n' ∈ ds.dropWhile isDecimal := by rw [hbreak]; simp
        simp [(List.dropWhile_suffix isDecimal).subset hmem]
      exact ⟨List.cons_ne_nil _ _, List.forall_mem_cons.mpr ⟨hd, List.dropWhile_eq_nil_iff.mp hnil⟩⟩

end Matching

/-! ## What is kept -/

/-- The string without an index at its end, if it has one there. -/
def stripIndex? (s : List Char) : Option (List Char) :=
  if s.rtakeWhile isDecimal ≠ [] ∧ (s.rdropWhile isDecimal).getLast? = some '/' then
    some (s.rdropWhile isDecimal).dropLast
  else none

/-- What the scratch URL keeps of a URL. -/
def kept (s : List Char) : List Char := (stripIndex? s).getD (s.rdropWhile (· = '/'))

section Kept

variable {s x y ds : List Char} {c : Char} {p : Char → Bool}

theorem rdropWhile_append_cons (hc : ¬ p c = true) :
    (x ++ c :: y).rdropWhile p = x ++ c :: y.rdropWhile p := by
  induction y using List.reverseRecOn with
  | nil => rw [List.rdropWhile_concat_neg _ _ _ hc, List.rdropWhile_nil]
  | append_singleton y d ih =>
    have hsplit : x ++ c :: (y ++ [d]) = (x ++ c :: y) ++ [d] := by simp
    by_cases hd : p d = true
    · rw [hsplit, List.rdropWhile_concat_pos _ _ _ hd, List.rdropWhile_concat_pos _ _ _ hd, ih]
    · rw [hsplit, List.rdropWhile_concat_neg _ _ _ hd, List.rdropWhile_concat_neg _ _ _ hd]
      simp

theorem rtakeWhile_append_cons (hc : ¬ p c = true) :
    (x ++ c :: y).rtakeWhile p = y.rtakeWhile p := by
  induction y using List.reverseRecOn with
  | nil => rw [List.rtakeWhile_concat_neg _ _ _ hc, List.rtakeWhile_nil]
  | append_singleton y d ih =>
    have hsplit : x ++ c :: (y ++ [d]) = (x ++ c :: y) ++ [d] := by simp
    by_cases hd : p d = true
    · rw [hsplit, List.rtakeWhile_concat_pos _ _ _ hd, List.rtakeWhile_concat_pos _ _ _ hd, ih]
    · rw [hsplit, List.rtakeWhile_concat_neg _ _ _ hd, List.rtakeWhile_concat_neg _ _ _ hd]

theorem stripIndex?_index (hne : ds ≠ []) (hds : ∀ c ∈ ds, isDecimal c = true) :
    stripIndex? (x ++ '/' :: ds) = some x := by
  have hslash : ¬ isDecimal '/' = true := by decide
  have htake : ds.rtakeWhile isDecimal = ds := List.rtakeWhile_eq_self_iff.mpr hds
  have hdrop : ds.rdropWhile isDecimal = [] := List.rdropWhile_eq_nil_iff.mpr hds
  rw [stripIndex?, rtakeWhile_append_cons hslash, rdropWhile_append_cons hslash, htake, hdrop]
  simp [hne]

theorem exists_of_stripIndex? (h : stripIndex? s = some x) :
    ∃ ds, s = x ++ '/' :: ds ∧ ds ≠ [] ∧ ∀ c ∈ ds, isDecimal c = true := by
  unfold stripIndex? at h
  split at h
  · next hend =>
    obtain ⟨hne, hlast⟩ := hend
    obtain rfl := Option.some.inj h
    refine ⟨s.rtakeWhile isDecimal, ?_, hne, fun c hc => List.mem_rtakeWhile_imp hc⟩
    calc s = s.rdropWhile isDecimal ++ s.rtakeWhile isDecimal :=
          List.rdropWhile_append_rtakeWhile.symm
      _ = ((s.rdropWhile isDecimal).dropLast ++ ['/']) ++ s.rtakeWhile isDecimal := by
          rw [List.dropLast_append_getLast? _ hlast]
      _ = (s.rdropWhile isDecimal).dropLast ++ '/' :: s.rtakeWhile isDecimal := by simp
  · cases h

/-- The scratch URL is what is kept, and `/14`. -/
theorem scratchRedisUrl_eq {url : String} (hline : '\n' ∉ url.toList) :
    (scratchRedisUrl url).toList = kept url.toList ++ scratchPath := by
  rw [scratchRedisUrl, String.toList_ofList, kept]
  revert hline
  generalize url.toList = s
  intro hline
  cases hstrip : stripIndex? s with
  | none =>
    have hnone : ∀ x y, s = x ++ y → y ≠ [] → indexAtEnd.match? y = none := by
      intro x y hxy _
      by_contra hmatch
      obtain ⟨m, hm⟩ := Option.ne_none_iff_exists'.mp hmatch
      obtain ⟨ds, rfl, hne, hds⟩ := exists_of_match?_index (fun h => hline (by simp [hxy, h])) hm
      rw [hxy, stripIndex?_index hne hds] at hstrip
      cases hstrip
    rw [Regex.subn_eq_self hnone]
    rfl
  | some x =>
    obtain ⟨ds, rfl, hne, hds⟩ := exists_of_stripIndex? hstrip
    have hnone : ∀ z y, x = z ++ y → y ≠ [] → indexAtEnd.match? (y ++ '/' :: ds) = none := by
      intro z y hxy hy
      by_contra hmatch
      obtain ⟨m, hm⟩ := Option.ne_none_iff_exists'.mp hmatch
      obtain ⟨more, heq, -, hmore⟩ := exists_of_match?_index
        (fun h => hline (by rw [hxy, List.append_assoc]; exact List.mem_append_right z h)) hm
      obtain ⟨c, y, rfl⟩ := List.exists_cons_of_ne_nil hy
      -- a digit cannot be the slash that comes later
      obtain ⟨-, rfl⟩ := List.cons.inj heq
      exact absurd (hmore '/' (by simp)) (by decide)
    rw [Regex.subn_append hnone, Regex.subn_of_match? (match?_index hne hds), Regex.subn_nil]
    simp

/-- What comes before a character that is neither a slash nor a digit is kept. -/
theorem kept_append_cons (hc : ¬ isDecimal c = true) (hslash : c ≠ '/') :
    kept (x ++ c :: y) = x ++ c :: kept y := by
  have hc' : ¬ decide (c = '/') = true := by simpa using hslash
  rw [kept, stripIndex?, rtakeWhile_append_cons hc, rdropWhile_append_cons hc,
    rdropWhile_append_cons hc', kept, stripIndex?]
  cases hy : y.rdropWhile isDecimal using List.reverseRecOn with
  | nil => simp [hslash]
  | append_singleton z d =>
    have hsplit : x ++ c :: (z ++ [d]) = (x ++ c :: z) ++ [d] := by simp
    rw [hsplit, List.getLast?_concat, List.getLast?_concat, List.dropLast_concat,
      List.dropLast_concat]
    split
    · simp
    · rfl

theorem kept_index (hne : ds ≠ []) (hds : ∀ c ∈ ds, isDecimal c = true) :
    kept (x ++ '/' :: ds) = x := by
  rw [kept, stripIndex?_index hne hds]
  rfl

theorem kept_eq_self (h : '/' ∉ s) : kept s = s := by
  have hnone : stripIndex? s = none := by
    cases hstrip : stripIndex? s with
    | none => rfl
    | some x =>
      obtain ⟨ds, rfl, -⟩ := exists_of_stripIndex? hstrip
      exact absurd (by simp) h
  rw [kept, hnone, Option.getD_none, List.rdropWhile_eq_self_iff]
  intro hl hlast
  exact h ((of_decide_eq_true hlast) ▸ List.getLast_mem hl)

theorem kept_slash : kept (s ++ ['/']) = s.rdropWhile (· = '/') := by
  have htake : (s ++ ['/']).rtakeWhile isDecimal = [] :=
    List.rtakeWhile_concat_neg _ _ _ (by decide)
  rw [kept, stripIndex?, htake, if_neg fun h => h.1 rfl, Option.getD_none,
    List.rdropWhile_concat_pos _ _ _ (by decide)]

theorem kept_isPrefixOf : kept s <+: s := by
  unfold kept
  cases hstrip : stripIndex? s with
  | none => exact List.rdropWhile_prefix _ _
  | some x =>
    obtain ⟨ds, rfl, -⟩ := exists_of_stripIndex? hstrip
    exact List.prefix_append _ _

end Kept

/-! ## Queries -/

/-- Percent escapes are decoded apart on either side of a slash. -/
def KeepsSlash (unquote : List Char → List Char) : Prop :=
  ∀ x y, unquote (x ++ '/' :: y) = unquote x ++ '/' :: unquote y

section Queries

variable {unquote : List Char → List Char} {piece q : List Char} {pieces : List (List Char)}

/-- The piece gives `db` a value, which may be empty. -/
def NamesDb (unquote : List Char → List Char) (piece : List Char) : Prop :=
  '=' ∈ piece ∧ unquotePlus unquote (piece.takeWhile (· ≠ '=')) = ['d', 'b']

/-- The pieces of a query before the last. -/
def earlierPieces (q : List Char) : List (List Char) := (q.splitOn '&').dropLast

/-- The last piece of a query. -/
def lastPiece (q : List Char) : List Char := ((q.splitOn '&').getLast?).getD []

theorem dbOption_concat :
    dbOption unquote (pieces ++ [piece]) =
      (dbOption unquote pieces).or (dbOption unquote [piece]) := by
  rw [dbOption, List.filterMap_append, List.find?_append, Option.map_or]
  rfl

theorem takeWhile_name {n v : List Char} (hn : '=' ∉ n) :
    (n ++ '=' :: v).takeWhile (· ≠ '=') = n :=
  takeWhile_append_of_head (fun c hc => by simpa using ne_of_mem_of_not_mem hc hn) (by simp)

theorem queryOption_name {n v : List Char} (hn : '=' ∉ n) :
    queryOption unquote (n ++ '=' :: v) =
      if v = [] then none else some (unquotePlus unquote n, unquote (unquotePlus unquote v)) := by
  have hdrop : (n ++ '=' :: v).dropWhile (· ≠ '=') = '=' :: v :=
    dropWhile_append_of_head (fun c hc => by simpa using ne_of_mem_of_not_mem hc hn) (by simp)
  rw [queryOption, takeWhile_name hn, hdrop]
  rfl

theorem queryOption_of_not_mem (h : '=' ∉ piece) : queryOption unquote piece = none := by
  have hdrop : piece.dropWhile (· ≠ '=') = [] :=
    List.dropWhile_eq_nil_iff.mpr fun c hc => by simpa using ne_of_mem_of_not_mem hc h
  rw [queryOption, hdrop]
  rfl

theorem namesDb_name {n v : List Char} (hn : '=' ∉ n) :
    NamesDb unquote (n ++ '=' :: v) ↔ unquotePlus unquote n = ['d', 'b'] := by
  rw [NamesDb, takeWhile_name hn]
  exact and_iff_right (by simp)

theorem dbOption_single : dbOption unquote [piece] =
    (queryOption unquote piece).bind fun option =>
      if option.1 = ['d', 'b'] then some option.2 else none := by
  rw [dbOption, List.filterMap_cons]
  cases queryOption unquote piece with
  | none => rfl
  | some option => by_cases hname : option.1 = ['d', 'b'] <;> simp [hname]

theorem dbOption_of_not_namesDb (h : ¬ NamesDb unquote piece) : dbOption unquote [piece] = none := by
  by_cases hmem : '=' ∈ piece
  · obtain ⟨n, v, rfl, hn⟩ := List.eq_append_cons_of_mem hmem
    rw [namesDb_name hn] at h
    rw [dbOption_single, queryOption_name hn]
    split
    · rfl
    · exact if_neg h
  · rw [dbOption_single, queryOption_of_not_mem hmem]
    rfl

theorem kept_name {n v : List Char} :
    kept (n ++ '=' :: v) ++ scratchPath = n ++ '=' :: (kept v ++ scratchPath) := by
  rw [kept_append_cons (by decide) (by decide), List.append_assoc, List.cons_append]

/-- The name of the last piece stays as it is. -/
theorem namesDb_kept : NamesDb unquote (kept piece ++ scratchPath) ↔ NamesDb unquote piece := by
  by_cases hmem : '=' ∈ piece
  · obtain ⟨n, v, rfl, hn⟩ := List.eq_append_cons_of_mem hmem
    rw [kept_name, namesDb_name hn, namesDb_name hn]
  · refine iff_of_false (fun h => ?_) fun h => hmem h.1
    rcases List.mem_append.mp h.1 with h | h
    · exact hmem (kept_isPrefixOf.subset h)
    · exact absurd h (by decide)

theorem slash_mem_unquotePlus (hunquote : KeepsSlash unquote) (x y : List Char) :
    '/' ∈ unquote (unquotePlus unquote (x ++ '/' :: y)) := by
  rw [unquotePlus, List.map_append, List.map_cons, if_neg (by decide), hunquote, hunquote]
  simp

/-- Its value gets a slash, and is no number any more. -/
theorem dbOption_of_namesDb (hunquote : KeepsSlash unquote) (h : NamesDb unquote piece) :
    ∃ value, dbOption unquote [kept piece ++ scratchPath] = some value ∧ int? value = none := by
  obtain ⟨n, v, rfl, hn⟩ := List.eq_append_cons_of_mem h.1
  rw [namesDb_name hn] at h
  refine ⟨_, ?_, int?_of_slash (slash_mem_unquotePlus hunquote (kept v) ['1', '4'])⟩
  rw [kept_name, dbOption_single, queryOption_name hn, if_neg (by simp [scratchPath])]
  exact if_pos h

/-- Only the last piece of a query is rewritten. -/
theorem splitOn_kept (q : List Char) :
    q.splitOn '&' = earlierPieces q ++ [lastPiece q] ∧
      (kept q ++ scratchPath).splitOn '&' =
        earlierPieces q ++ [kept (lastPiece q) ++ scratchPath] := by
  have hsingle {p : List Char} (hp : '&' ∉ p) :
      (kept p ++ scratchPath).splitOn '&' = [kept p ++ scratchPath] := by
    refine List.splitOn_eq_singleton fun h => ?_
    rcases List.mem_append.mp h with h | h
    · exact hp (kept_isPrefixOf.subset h)
    · exact absurd h (by decide)
  by_cases hmem : '&' ∈ q.reverse
  · obtain ⟨p, x, hq, hp⟩ := List.eq_append_cons_of_mem hmem
    have hp' : '&' ∉ p.reverse := by simpa using hp
    obtain rfl : q = x.reverse ++ '&' :: p.reverse := by
      rw [← List.reverse_reverse q, hq]
      simp
    have hsplit : (x.reverse ++ '&' :: p.reverse).splitOn '&' =
        x.reverse.splitOn '&' ++ [p.reverse] := by
      rw [List.splitOn_append_cons_self, List.splitOn_eq_singleton hp']
    rw [earlierPieces, lastPiece, hsplit, List.dropLast_concat, List.getLast?_concat,
      kept_append_cons (by decide) (by decide), List.append_assoc, List.cons_append,
      List.splitOn_append_cons_self, hsingle hp']
    exact ⟨rfl, rfl⟩
  · have hq : '&' ∉ q := by simpa using hmem
    rw [earlierPieces, lastPiece, List.splitOn_eq_singleton hq, hsingle hq]
    exact ⟨rfl, rfl⟩

section Target

variable {netloc path : List Char} {t : Target}

/-- The last piece was to give the index, and gives no number any more. -/
theorem target_kept_of_last (hunquote : KeepsSlash unquote) (hlast : NamesDb unquote (lastPiece q))
    (hearlier : dbOption unquote (earlierPieces q) = none) :
    target unquote netloc path (kept q ++ scratchPath) = none := by
  obtain ⟨value, hvalue, hint⟩ := dbOption_of_namesDb hunquote hlast
  rw [target, (splitOn_kept q).2, dbOption_concat, hearlier, hvalue]
  dsimp only [Option.or]
  rw [hint]
  rfl

/-- An earlier piece gives the index, or the path does, and neither is rewritten. -/
theorem target_kept (h : target unquote netloc path q = some t)
    (hlast : NamesDb unquote (lastPiece q) → (dbOption unquote (earlierPieces q)).isSome) :
    target unquote netloc path (kept q ++ scratchPath) = some t := by
  rw [← h, target, target, (splitOn_kept q).2, (splitOn_kept q).1, dbOption_concat, dbOption_concat]
  cases hearlier : dbOption unquote (earlierPieces q) with
  | some value => rfl
  | none =>
    have hnot : ¬ NamesDb unquote (lastPiece q) := by
      intro hnames
      have := hlast hnames
      rw [hearlier] at this
      cases this
    rw [dbOption_of_not_namesDb hnot, dbOption_of_not_namesDb (mt namesDb_kept.mp hnot)]

end Target

end Queries

/-! ## The scratch database -/

section Lands

variable {unquote : List Char → List Char} {url : RedisUrl}

theorem mem_path {c : Char} (h : c ∈ url.path) : c = '/' ∨ c.isDigit = true := by
  rw [RedisUrl.path, List.mem_append] at h
  rcases h with h | h
  · cases hdb : url.db with
    | none =>
      rw [hdb] at h
      cases h
    | some d =>
      rw [hdb] at h
      exact (List.mem_cons.mp h).imp_right ((url.db_ok d hdb).2 c)
  · split at h
    · exact .inl (List.mem_singleton.mp h)
    · cases h

theorem not_mem_authority (url : RedisUrl) {c : Char}
    (h : c ∈ ['/', '?', '#', '\n', '\r', '\t']) : c ∉ url.authority.toList :=
  fun hc => url.authority_ok c hc h

theorem newline_not_mem_text : '\n' ∉ url.text.toList := by
  rw [RedisUrl.text, String.toList_ofList, List.mem_append, List.mem_append, List.mem_append]
  rintro (h | h | h | h)
  · cases htls : url.tls <;> rw [htls] at h <;> exact absurd h (by decide)
  · exact not_mem_authority url (by simp) h
  · exact absurd (mem_path h) (by decide)
  · cases hquery : url.query with
    | none =>
      rw [hquery] at h
      cases h
    | some q =>
      rw [hquery] at h
      exact url.query_ok q hquery _ ((List.mem_cons.mp h).resolve_left (by decide)) (by simp)

/-- redis-py, on what is written of a URL with another path and another query. -/
theorem fromUrl_url {path : List Char} {query : Option (List Char)}
    (hpath : ∀ c ∈ path, c = '/' ∨ c.isDigit = true) (hslash : ∀ c ∈ path.head?, c = '/')
    (hquery : ∀ q ∈ query, '#' ∉ q) :
    fromUrl unquote (RedisUrl.scheme url.tls ++ (url.authority.toList ++
        (path ++ RedisUrl.queryPart query))) =
      target unquote url.authority.toList path (query.getD []) := by
  refine fromUrl_of_parts (fun c hc h => ?_) (fun c hc h => ?_) hslash hquery
  · refine not_mem_authority url ?_ hc
    simp only [List.mem_cons, List.not_mem_nil, or_false] at h
    rcases h with rfl | rfl | rfl <;> simp
  · simp only [List.mem_cons, List.not_mem_nil, or_false] at h
    rcases h with rfl | rfl
    · exact absurd (hpath _ hc) (by decide)
    · exact absurd (hpath _ hc) (by decide)

theorem head?_path : ∀ c ∈ url.path.head?, c = '/' := by
  intro c hc
  rw [RedisUrl.path] at hc
  cases hdb : url.db with
  | some d =>
    rw [hdb] at hc
    cases hc
    rfl
  | none =>
    rw [hdb, List.nil_append] at hc
    split at hc
    · cases hc
      rfl
    · cases hc

theorem fromUrl_text : fromUrl unquote url.text.toList =
    target unquote url.authority.toList url.path ((url.query.map String.toList).getD []) := by
  rw [RedisUrl.text, String.toList_ofList]
  refine fromUrl_url (fun c => mem_path) head?_path ?_
  intro q hq hhash
  obtain ⟨q, hquery, rfl⟩ := Option.mem_map.mp hq
  exact url.query_ok q hquery _ hhash (by simp)

theorem target_nil {netloc path : List Char} : target unquote netloc path [] =
    some ⟨netloc.rtakeWhile (· ≠ '@'), (int? (path.filter (· ≠ '/'))).getD 0⟩ := rfl

/-- With a query, the URL has to select 14 already, and not by its last piece. -/
def SelectsScratch (unquote : List Char → List Char) (url : RedisUrl) (q : String) : Prop :=
  (fromUrl unquote url.text.toList).map Target.db = some 14 ∧
    (NamesDb unquote (lastPiece q.toList) → (dbOption unquote (earlierPieces q.toList)).isSome)

/-- Without one, an index is replaced, unless a slash stands behind it and it is not 0. Where there
is no index, `/14` is put behind an authority, unless that is taken for one. -/
def TakesIndex (url : RedisUrl) : Prop :=
  match url.db with
  | some d => url.slash = true → int? d.toList = some 0 ∧ d.toList.length + 2 ≤ maxDigits
  | none => url.authority ≠ "" ∧
      (url.slash = true ∨ ∃ c ∈ url.authority.toList, isDecimal c = false)

/-- The URLs of which the scratch URL selects the scratch database. -/
def Swappable (unquote : List Char → List Char) (url : RedisUrl) : Prop :=
  match url.query with
  | some q => SelectsScratch unquote url q
  | none => TakesIndex url

/-! ### URLs with a query -/

theorem scratchRedisUrl_query {q : String} (hq : url.query = some q) :
    (scratchRedisUrl url.text).toList = RedisUrl.scheme url.tls ++ (url.authority.toList ++
      (url.path ++ RedisUrl.queryPart (some (kept q.toList ++ scratchPath)))) := by
  rw [scratchRedisUrl_eq newline_not_mem_text, RedisUrl.text, String.toList_ofList, hq]
  have hsplit : RedisUrl.scheme url.tls ++ (url.authority.toList ++
      (url.path ++ RedisUrl.queryPart ((some q).map String.toList))) =
      (RedisUrl.scheme url.tls ++ (url.authority.toList ++ url.path)) ++ '?' :: q.toList := by
    simp [RedisUrl.queryPart]
  rw [hsplit, kept_append_cons (by decide) (by decide)]
  simp [RedisUrl.queryPart]

theorem lands_iff_of_query (hunquote : KeepsSlash unquote) {q : String} (hq : url.query = some q)
    {t : Target} (h : fromUrl unquote url.text.toList = some t) :
    fromUrl unquote (scratchRedisUrl url.text).toList = some ⟨t.server, 14⟩ ↔
      SelectsScratch unquote url q := by
  have hhash : ∀ q' ∈ some (kept q.toList ++ scratchPath), '#' ∉ q' := by
    rintro q' ⟨⟩ hmem
    rcases List.mem_append.mp hmem with hmem | hmem
    · exact url.query_ok q hq _ (kept_isPrefixOf.subset hmem) (by simp)
    · exact absurd hmem (by decide)
  rw [scratchRedisUrl_query hq, fromUrl_url (fun c => mem_path) head?_path hhash, SelectsScratch, h]
  rw [fromUrl_text, hq] at h
  by_cases hlast : NamesDb unquote (lastPiece q.toList) →
      (dbOption unquote (earlierPieces q.toList)).isSome
  · have hkept : target unquote url.authority.toList url.path (kept q.toList ++ scratchPath) =
        some t := target_kept h hlast
    rw [Option.getD_some, hkept, Option.some.injEq, Option.map_some, Option.some.injEq]
    refine ⟨fun ht => ⟨by rw [ht], hlast⟩, fun ht => ?_⟩
    rw [← ht.1]
  · refine iff_of_false ?_ fun ht => hlast ht.2
    obtain ⟨hnames, hnone⟩ := Classical.not_imp.mp hlast
    rw [Option.getD_some, target_kept_of_last hunquote hnames (by simpa using hnone)]
    exact nofun

/-! ### URLs without a query -/

/-- A path of slashes and digits, behind the authority. -/
theorem fromUrl_path {path : List Char} (hpath : ∀ c ∈ path, c = '/' ∨ c.isDigit = true)
    (hslash : ∀ c ∈ path.head?, c = '/') :
    fromUrl unquote (RedisUrl.scheme url.tls ++ (url.authority.toList ++ path)) =
      some ⟨url.authority.toList.rtakeWhile (· ≠ '@'), (int? (path.filter (· ≠ '/'))).getD 0⟩ := by
  have hparts : fromUrl unquote (RedisUrl.scheme url.tls ++ (url.authority.toList ++
      (path ++ RedisUrl.queryPart none))) = target unquote url.authority.toList path [] :=
    fromUrl_url hpath hslash nofun
  simpa [RedisUrl.queryPart, target_nil] using hparts

theorem fromUrl_scratchPath :
    fromUrl unquote (RedisUrl.scheme url.tls ++ (url.authority.toList ++ scratchPath)) =
      some ⟨url.authority.toList.rtakeWhile (· ≠ '@'), 14⟩ := by
  rw [fromUrl_path (by simp [scratchPath]) (by simp [scratchPath])]
  rfl

theorem text_of_no_query (hq : url.query = none) : url.text.toList =
    RedisUrl.scheme url.tls ++ (url.authority.toList ++ url.path) := by
  rw [RedisUrl.text, String.toList_ofList, hq]
  simp [RedisUrl.queryPart]

theorem server_of_no_query (hq : url.query = none) {t : Target}
    (h : fromUrl unquote url.text.toList = some t) :
    t.server = url.authority.toList.rtakeWhile (· ≠ '@') := by
  rw [fromUrl_text, hq, Option.map_none, Option.getD_none, target_nil] at h
  rw [← Option.some.inj h]

/-- The characters of an authority are not stripped with the slashes. -/
theorem rdropWhile_slash (hne : s ≠ []) (hs : '/' ∉ s) :
    (x ++ s).rdropWhile (· = '/') = x ++ s := by
  refine List.rdropWhile_eq_self_iff.mpr fun hl hlast => ?_
  rw [List.getLast_append_of_ne_nil hl hne] at hlast
  exact hs (of_decide_eq_true hlast ▸ List.getLast_mem hne)

section NoQuery

variable {d : String}

theorem scratch_of_index (hq : url.query = none) (hdb : url.db = some d) (hslash : url.slash = false) :
    (scratchRedisUrl url.text).toList =
      RedisUrl.scheme url.tls ++ (url.authority.toList ++ scratchPath) := by
  obtain ⟨hne, hd⟩ := url.db_ok d hdb
  have hdecimal : ∀ c ∈ d.toList, isDecimal c = true := fun c hc => isDecimal_of_isDigit (hd c hc)
  have hne' : d.toList ≠ [] := by simpa using hne
  have hsplit : RedisUrl.scheme url.tls ++ (url.authority.toList ++ url.path) =
      (RedisUrl.scheme url.tls ++ url.authority.toList) ++ '/' :: d.toList := by
    simp [RedisUrl.path, hdb, hslash]
  rw [scratchRedisUrl_eq newline_not_mem_text, text_of_no_query hq, hsplit,
    kept_index hne' hdecimal, List.append_assoc]

theorem scratch_of_index_slash (hq : url.query = none) (hdb : url.db = some d) (hslash : url.slash = true) :
    (scratchRedisUrl url.text).toList =
      RedisUrl.scheme url.tls ++ (url.authority.toList ++ ('/' :: d.toList ++ scratchPath)) := by
  obtain ⟨hne, hd⟩ := url.db_ok d hdb
  have hne' : d.toList ≠ [] := by simpa using hne
  have hd' : '/' ∉ d.toList := fun h => absurd (hd '/' h) (by decide)
  have hsplit : RedisUrl.scheme url.tls ++ (url.authority.toList ++ url.path) =
      (((RedisUrl.scheme url.tls ++ url.authority.toList) ++ ['/']) ++ d.toList) ++ ['/'] := by
    simp [RedisUrl.path, hdb, hslash]
  rw [scratchRedisUrl_eq newline_not_mem_text, text_of_no_query hq, hsplit, kept_slash,
    rdropWhile_slash hne' hd']
  simp

theorem scratch_of_slash (hq : url.query = none) (hdb : url.db = none) (hslash : url.slash = true)
    (hne : url.authority ≠ "") :
    (scratchRedisUrl url.text).toList =
      RedisUrl.scheme url.tls ++ (url.authority.toList ++ scratchPath) := by
  have hne' : url.authority.toList ≠ [] := by simpa using hne
  have hsplit : RedisUrl.scheme url.tls ++ (url.authority.toList ++ url.path) =
      (RedisUrl.scheme url.tls ++ url.authority.toList) ++ ['/'] := by
    simp [RedisUrl.path, hdb, hslash]
  rw [scratchRedisUrl_eq newline_not_mem_text, text_of_no_query hq, hsplit, kept_slash,
    rdropWhile_slash hne' (not_mem_authority url (by simp)), List.append_assoc]

theorem scratch_of_authority (hq : url.query = none) (hdb : url.db = none) (hslash : url.slash = false)
    (hname : ∃ c ∈ url.authority.toList, isDecimal c = false) :
    (scratchRedisUrl url.text).toList =
      RedisUrl.scheme url.tls ++ (url.authority.toList ++ scratchPath) := by
  obtain ⟨c, hc, hdecimal⟩ := hname
  have hcslash : c ≠ '/' := ne_of_mem_of_not_mem hc (not_mem_authority url (by simp))
  obtain ⟨x, y, hxy⟩ := List.append_of_mem hc
  have hy : '/' ∉ y := by
    intro h
    have hmem : '/' ∈ url.authority.toList := by simp [hxy, h]
    exact not_mem_authority url (by simp) hmem
  have hsplit : RedisUrl.scheme url.tls ++ (url.authority.toList ++ url.path) =
      (RedisUrl.scheme url.tls ++ x) ++ c :: y := by
    simp [RedisUrl.path, hdb, hslash, hxy]
  rw [scratchRedisUrl_eq newline_not_mem_text, text_of_no_query hq, hsplit,
    kept_append_cons (by simp [hdecimal]) hcslash, kept_eq_self hy, hxy]
  simp

end NoQuery

/-- An index in front of a slash stays, and is read together with the 14. -/
theorem int?_index_scratch {d : List Char} (hne : d ≠ []) (hd : ∀ c ∈ d, c.isDigit = true) :
    (int? (d ++ ['1', '4'])).getD 0 = 14 ↔ int? d = some 0 ∧ d.length + 2 ≤ maxDigits := by
  have hd' : ∀ c ∈ d ++ ['1', '4'], c.isDigit = true :=
    List.forall_mem_append.mpr ⟨hd, by simp⟩
  have hvalue : digitsValue (d ++ ['1', '4']) = 100 * digitsValue d + 14 := digitsValue_append
  rw [int?_of_isDigit (by simp) hd', int?_of_isDigit hne hd, List.length_append, hvalue]
  by_cases hlen : d.length + 2 ≤ maxDigits
  · have hlen' : d.length ≤ maxDigits := by omega
    simp [hlen, hlen']
  · simp [hlen]

/-- Where the authority is empty, the slashes of the scheme are stripped too. -/
theorem fromUrl_scratch_of_empty (hq : url.query = none) (hdb : url.db = none)
    (hempty : url.authority = "") :
    fromUrl unquote (scratchRedisUrl url.text).toList = none := by
  rw [scratchRedisUrl_eq newline_not_mem_text, text_of_no_query hq, hempty, RedisUrl.path, hdb]
  cases url.tls <;> cases url.slash <;> rfl

/-- An authority of digits is taken for an index. -/
theorem fromUrl_scratch_of_digits (hq : url.query = none) (hdb : url.db = none)
    (hslash : url.slash = false) (hne : url.authority ≠ "")
    (hdigits : ∀ c ∈ url.authority.toList, isDecimal c = true) :
    fromUrl unquote (scratchRedisUrl url.text).toList = some ⟨['1', '4'], 0⟩ := by
  have hne' : url.authority.toList ≠ [] := by simpa using hne
  have htext : url.text.toList =
      (RedisUrl.scheme url.tls).dropLast ++ '/' :: url.authority.toList := by
    rw [text_of_no_query hq, RedisUrl.path, hdb, hslash]
    cases url.tls <;> simp [RedisUrl.scheme]
  rw [scratchRedisUrl_eq newline_not_mem_text, htext, kept_index hne' hdigits]
  cases url.tls <;> rfl

theorem lands_iff_of_no_query (hq : url.query = none) {t : Target}
    (h : fromUrl unquote url.text.toList = some t) :
    fromUrl unquote (scratchRedisUrl url.text).toList = some ⟨t.server, 14⟩ ↔ TakesIndex url := by
  rw [server_of_no_query hq h]
  unfold TakesIndex
  cases hdb : url.db with
  | some d =>
    cases hslash : url.slash with
    | false =>
      rw [scratch_of_index hq hdb hslash, fromUrl_scratchPath]
      exact iff_of_true rfl nofun
    | true =>
      obtain ⟨hne, hd⟩ := url.db_ok d hdb
      have hpath : ∀ c ∈ '/' :: d.toList ++ scratchPath, c = '/' ∨ c.isDigit = true := by
        refine List.forall_mem_append.mpr ⟨List.forall_mem_cons.mpr ⟨.inl rfl, ?_⟩, by simp [scratchPath]⟩
        exact fun c hc => .inr (hd c hc)
      have hfilter : ('/' :: d.toList ++ scratchPath).filter (· ≠ '/') = d.toList ++ ['1', '4'] := by
        have hd' : d.toList.filter (· ≠ '/') = d.toList := by
          refine List.filter_eq_self.mpr fun c hc => ?_
          have hc' := hd c hc
          simp only [ne_eq, decide_not, Bool.not_eq_eq_eq_not, Bool.not_true, decide_eq_false_iff_not]
          rintro rfl
          cases hc'
        rw [List.filter_append, List.filter_cons_of_neg (by decide), hd']
        rfl
      rw [scratch_of_index_slash hq hdb hslash, fromUrl_path hpath (by simp), hfilter,
        Option.some.injEq, Target.mk.injEq, int?_index_scratch (by simpa using hne) hd]
      simp
  | none =>
    by_cases hne : url.authority = ""
    · rw [fromUrl_scratch_of_empty hq hdb hne]
      exact iff_of_false nofun fun ht => ht.1 hne
    · cases hslash : url.slash with
      | true =>
        rw [scratch_of_slash hq hdb hslash hne, fromUrl_scratchPath]
        exact iff_of_true rfl ⟨hne, .inl rfl⟩
      | false =>
        by_cases hname : ∃ c ∈ url.authority.toList, isDecimal c = false
        · rw [scratch_of_authority hq hdb hslash hname, fromUrl_scratchPath]
          exact iff_of_true rfl ⟨hne, .inr hname⟩
        · have hdigits : ∀ c ∈ url.authority.toList, isDecimal c = true := by
            intro c hc
            by_contra hdecimal
            exact hname ⟨c, hc, by simpa using hdecimal⟩
          rw [fromUrl_scratch_of_digits hq hdb hslash hne hdigits]
          refine iff_of_false (fun heq => ?_) fun ht => ?_
          · cases (Target.mk.inj (Option.some.inj heq)).2
          · exact ht.2.elim nofun hname

/-- The scratch URL selects database 14 on the same server just when the URL is one that the rewrite
was made for, or one with a query that selects 14 already. -/
theorem scratch_lands_iff (hunquote : KeepsSlash unquote) {t : Target}
    (h : fromUrl unquote url.text.toList = some t) :
    fromUrl unquote (scratchRedisUrl url.text).toList = some ⟨t.server, 14⟩ ↔
      Swappable unquote url := by
  unfold Swappable
  cases hq : url.query with
  | some q => exact lands_iff_of_query hunquote hq h
  | none => exact lands_iff_of_no_query hq h

end Lands

/-- `redis://localhost:6379/0` -/
def plainUrl : RedisUrl where
  tls := false
  authority := "localhost:6379"
  db := some "0"
  slash := false
  query := none
  authority_ok := by simp
  db_ok := by simp
  query_ok := nofun

theorem scratch_lands_plainUrl :
    fromUrl id (scratchRedisUrl plainUrl.text).toList = some ⟨"localhost:6379".toList, 14⟩ :=
  (scratch_lands_iff (fun _ _ => rfl)
    (show fromUrl id plainUrl.text.toList = some ⟨"localhost:6379".toList, 0⟩ by decide)).mpr nofun

/-- `rediss://localhost:6379/0?ssl_cert_reqs=none` -/
def optionUrl : RedisUrl where
  tls := true
  authority := "localhost:6379"
  db := some "0"
  slash := false
  query := some "ssl_cert_reqs=none"
  authority_ok := by simp
  db_ok := by simp
  query_ok := by simp

/-- Behind a query the `/14` is part of the last option, and the index stays that of the gateway. -/
theorem scratch_keeps_index_of_optionUrl :
    fromUrl id optionUrl.text.toList = some ⟨"localhost:6379".toList, 0⟩ ∧
      fromUrl id (scratchRedisUrl optionUrl.text).toList = some ⟨"localhost:6379".toList, 0⟩ := by
  constructor
  · decide
  · rw [scratchRedisUrl_query rfl]
    decide

end LlmGateway.BenchOverhead
