import LlmGateway.Text.Decimal

/-!
# Redis URLs

The URLs of the schemes `redis` and `rediss`, and what redis-py reads off one: the server, and the
index of the database, which is the first `db` option of the query, else the number that the path
spells without its slashes, else 0.

`unquote` is the decoding of percent escapes, of which only what it does around a slash matters.
-/

namespace LlmGateway

open Str

/-- A URL of the scheme `redis` or `rediss`. Tabs and line breaks, which the parser of URLs drops,
are left out. -/
structure RedisUrl where
  tls : Bool
  /-- the credentials, the host and the port -/
  authority : String
  db : Option String
  slash : Bool
  query : Option String
  authority_ok : ∀ c ∈ authority.toList, c ∉ ['/', '?', '#', '\n', '\r', '\t']
  db_ok : ∀ d ∈ db, d ≠ "" ∧ ∀ c ∈ d.toList, c.isDigit = true
  query_ok : ∀ q ∈ query, ∀ c ∈ q.toList, c ∉ ['#', '\n', '\r', '\t']

namespace RedisUrl

/-- The scheme, up to the authority. -/
def scheme (tls : Bool) : List Char := if tls then "rediss://".toList else "redis://".toList

/-- The path: an index, and a slash. -/
def path (url : RedisUrl) : List Char :=
  (match url.db with
    | some d => '/' :: d.toList
    | none => []) ++ if url.slash then ['/'] else []

/-- The query, from its `?` on. -/
def queryPart : Option (List Char) → List Char
  | some q => '?' :: q
  | none => []

/-- The URL as it is written. -/
def text (url : RedisUrl) : String :=
  String.ofList (scheme url.tls ++ (url.authority.toList ++ (url.path ++
    queryPart (url.query.map String.toList))))

end RedisUrl

/-! ## redis-py -/

/-- What a client connects to: a host with its port, and a database. -/
structure Target where
  server : List Char
  db : ℤ
  deriving DecidableEq

section RedisPy

variable (unquote : List Char → List Char)

/-- `unquote_plus`. -/
def unquotePlus (s : List Char) : List Char := unquote (s.map fun c => if c = '+' then ' ' else c)

/-- A name and a value, from a piece of a query. One without a value is passed over. -/
def queryOption (piece : List Char) : Option (List Char × List Char) :=
  let value := (piece.dropWhile (· ≠ '=')).drop 1
  if value = [] then none
  else some (unquotePlus unquote (piece.takeWhile (· ≠ '=')), unquote (unquotePlus unquote value))

/-- The first option `db` among the pieces of a query. -/
def dbOption (pieces : List (List Char)) : Option (List Char) :=
  ((pieces.filterMap (queryOption unquote)).find? (·.1 = ['d', 'b'])).map (·.2)

/-- What redis-py connects to, once the URL is taken apart. It is `none` where an option `db` is not
a number. The other options with a type (`socket_timeout=5/14`), which redis-py refuses as well if
their values have another, say nothing about the database and are not looked at. -/
def target (netloc path query : List Char) : Option Target :=
  let server := netloc.rtakeWhile (· ≠ '@')
  match dbOption unquote (query.splitOn '&') with
  | some value => (int? value).map fun db => ⟨server, db⟩
  | none => some ⟨server, (int? (path.filter (· ≠ '/'))).getD 0⟩

/-- `Redis.from_url`. -/
def fromUrl (url : List Char) : Option Target :=
  let rest? :=
    if "redis://".toList <+: url then some (url.drop "redis://".length)
    else if "rediss://".toList <+: url then some (url.drop "rediss://".length)
    else none
  rest?.bind fun rest =>
    let rest := rest.takeWhile (· ≠ '#')
    let afterNetloc := rest.dropWhile fun c => c ≠ '/' ∧ c ≠ '?'
    target unquote (rest.takeWhile fun c => c ≠ '/' ∧ c ≠ '?') (afterNetloc.takeWhile (· ≠ '?'))
      ((afterNetloc.dropWhile (· ≠ '?')).drop 1)

end RedisPy

/-! ## Taking a URL apart -/

section Parts

variable {p : Char → Bool} {x y : List Char}

theorem takeWhile_append_of_head (hx : ∀ c ∈ x, p c = true) (hy : ∀ c ∈ y.head?, ¬ p c = true) :
    (x ++ y).takeWhile p = x := by
  rw [List.takeWhile_append_of_pos hx]
  cases y with
  | nil => simp
  | cons c y => rw [List.takeWhile_cons_of_neg (hy c rfl), List.append_nil]

theorem dropWhile_append_of_head (hx : ∀ c ∈ x, p c = true) (hy : ∀ c ∈ y.head?, ¬ p c = true) :
    (x ++ y).dropWhile p = y := by
  rw [List.dropWhile_append_of_pos hx]
  cases y with
  | nil => rfl
  | cons c y => rw [List.dropWhile_cons_of_neg (hy c rfl)]

variable {unquote : List Char → List Char} {tls : Bool} {authority path rest : List Char}
  {query : Option (List Char)}

theorem fromUrl_scheme :
    fromUrl unquote (RedisUrl.scheme tls ++ rest) =
      let rest := rest.takeWhile (· ≠ '#')
      let afterNetloc := rest.dropWhile fun c => c ≠ '/' ∧ c ≠ '?'
      target unquote (rest.takeWhile fun c => c ≠ '/' ∧ c ≠ '?') (afterNetloc.takeWhile (· ≠ '?'))
        ((afterNetloc.dropWhile (· ≠ '?')).drop 1) := by
  cases tls with
  | false =>
    have hscheme : "redis://".toList <+: RedisUrl.scheme false ++ rest := List.prefix_append _ _
    rw [fromUrl, if_pos hscheme]
    rfl
  | true =>
    have hplain : ¬ "redis://".toList <+: RedisUrl.scheme true ++ rest := by
      simp [RedisUrl.scheme]
    have hscheme : "rediss://".toList <+: RedisUrl.scheme true ++ rest := List.prefix_append _ _
    rw [fromUrl, if_neg hplain, if_pos hscheme]
    rfl

/-- What redis-py reads off a URL that is given by its parts. -/
theorem fromUrl_of_parts (hauthority : ∀ c ∈ authority, c ∉ ['/', '?', '#'])
    (hpath : ∀ c ∈ path, c ∉ ['?', '#']) (hslash : ∀ c ∈ path.head?, c = '/')
    (hquery : ∀ q ∈ query, '#' ∉ q) :
    fromUrl unquote (RedisUrl.scheme tls ++ (authority ++ (path ++ RedisUrl.queryPart query))) =
      target unquote authority path (query.getD []) := by
  have hmark : ∀ c ∈ (RedisUrl.queryPart query).head?, c = '?' := by
    cases query with
    | none => nofun
    | some q =>
      rintro c ⟨⟩
      rfl
  have hnoHash : ∀ c ∈ authority ++ (path ++ RedisUrl.queryPart query), c ≠ '#' := by
    rintro c hc rfl
    rcases List.mem_append.mp hc with hc | hc
    · exact hauthority _ hc (by simp)
    · rcases List.mem_append.mp hc with hc | hc
      · exact hpath _ hc (by simp)
      · cases query with
        | none => cases hc
        | some q => exact hquery q rfl ((List.mem_cons.mp hc).resolve_left (by decide))
  have hhash : (authority ++ (path ++ RedisUrl.queryPart query)).takeWhile (· ≠ '#') =
      authority ++ (path ++ RedisUrl.queryPart query) := by
    rw [List.takeWhile_eq_self_iff]
    simpa using hnoHash
  have hnetloc : ∀ c ∈ authority, decide (c ≠ '/' ∧ c ≠ '?') = true := by
    intro c hc
    have hc := hauthority c hc
    simp only [List.mem_cons, not_or] at hc
    simp [hc.1, hc.2.1]
  have hend : ∀ c ∈ (path ++ RedisUrl.queryPart query).head?,
      ¬ decide (c ≠ '/' ∧ c ≠ '?') = true := by
    intro c hc
    have hc : c = '/' ∨ c = '?' := by
      cases path with
      | nil => exact .inr (hmark c hc)
      | cons d path => exact .inl (hslash c hc)
    rcases hc with rfl | rfl <;> simp
  have hpath' : ∀ c ∈ path, decide (c ≠ '?') = true := by
    intro c hc
    simpa using fun h => hpath c hc (by simp [h])
  have hmark' : ∀ c ∈ (RedisUrl.queryPart query).head?, ¬ decide (c ≠ '?') = true := by
    intro c hc
    simpa using hmark c hc
  have hlast : (RedisUrl.queryPart query).drop 1 = query.getD [] := by
    cases query <;> rfl
  rw [fromUrl_scheme, hhash]
  dsimp only
  rw [takeWhile_append_of_head hnetloc hend, dropWhile_append_of_head hnetloc hend,
    takeWhile_append_of_head hpath' hmark', dropWhile_append_of_head hpath' hmark', hlast]

end Parts

end LlmGateway
