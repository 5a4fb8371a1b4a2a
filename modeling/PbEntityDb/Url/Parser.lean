import PbEntityDb.Url.Connection

/-!
The parser of libzdb for the URL of a connection: `_parseURL`.

* In each of its states the longest rule wins, the first one of those that are
  equally long; `authorityToken` compares the rules behind the scheme.
* `parseAuthority`, `parseQuery` and `parseParams` are the states, `parseUrl` is
  `URL_new`. The parts of the URL are decoded where they stand in the buffer.
* `parseUrl_url` says what the parser makes of the URL of a driver, and
  `connection_gets` what the connection then asks it for.

A run is undefined (`none`) where a decoder looks behind the buffer and where
the number of a port throws.
-/

namespace PbEntityDb

open Segments

/-- `struct URL_S`. -/
structure ZdbUrl where
  protocol : List Byte
  port : BitVec 32
  user : Option (List Byte)
  password : Option (List Byte)
  ip6 : Bool
  host : Option (List Byte)
  path : Option (List Byte)
  query : Option (List Byte)
  /-- the last one first, `none` for a value that was not read yet -/
  params : List (List Byte × Option (List Byte))
  deriving DecidableEq, Repr

/-! ### The classes and the rules -/

/-- `ws`. -/
def isWs (c : Byte) : Bool := c = byte ' ' || c = 9 || c = 13 || c = 10

/-- The class of `auth`. -/
def isAuth (c : Byte) : Bool :=
  0x20 ≤ c && c ≤ 0x3f || 0x41 ≤ c && c ≤ 0x5a || c = 0x5c || 0x5e ≤ c

/-- The class of `host`. -/
def isLabel (c : Byte) : Bool := isalnum c || c = byte '-'

/-- The class of `host6`. -/
def isHost6 (c : Byte) : Bool := isalnum c || c = byte ':' || c = byte '%'

/-- The class of `path`. -/
def isPath (c : Byte) : Bool := 0x21 ≤ c && c ≠ byte '?' && c ≠ byte '#' && c ≠ byte ';'

/-- The class of `query`. -/
def isQuery (c : Byte) : Bool := 0x20 ≤ c && c ≠ byte '#'

/-- The class of `parameterkey`. -/
def isParameterKey (c : Byte) : Bool := 0x21 ≤ c && c ≠ byte '='

/-- The class of `parametervalue`. -/
def isParameterValue (c : Byte) : Bool := 0x20 ≤ c && c ≠ byte '&'

/-- The length of `auth`, zero if it does not match. -/
def authLength (s : List Byte) : ℕ :=
  if s.takeWhile isAuth ≠ [] ∧ (s.dropWhile isAuth).head? = some (byte '@') then
    (s.takeWhile isAuth).length + 1
  else 0

/-- The length of `host6`. -/
def host6Length (s : List Byte) : ℕ :=
  let run := s.tail.takeWhile isHost6
  if s.head? = some (byte '[') ∧ run ≠ []
      ∧ (s.tail.dropWhile isHost6).head? = some (byte ']') then run.length + 2
  else 0

/-- What `host` takes behind a character of a label. -/
def hostTail : List Byte → ℕ
  | [] => 0
  | [c] => if isLabel c then 1 else 0
  | c :: d :: s =>
      if isLabel c then hostTail (d :: s) + 1
      else if c = byte '.' ∧ isLabel d then hostTail s + 2
      else 0

/-- The length of `host`. -/
def hostLength : List Byte → ℕ
  | [] => 0
  | c :: s => if isLabel c then hostTail s + 1 else 0

/-- The length of `port`. -/
def portLength (s : List Byte) : ℕ :=
  let digits := s.tail.takeWhile isdigit
  if s.head? = some (byte ':') ∧ digits ≠ [] then digits.length + 1 else 0

/-- The length of `path`. -/
def pathLength (s : List Byte) : ℕ :=
  if s.head? = some (byte '/') then (s.tail.takeWhile isPath).length + 1 else 0

/-- The length of `path[?]`. -/
def pathQueryLength (s : List Byte) : ℕ :=
  if s.head? = some (byte '/') ∧ (s.tail.dropWhile isPath).head? = some (byte '?') then
    (s.tail.takeWhile isPath).length + 2
  else 0

/-- The rules of the state `authority`. -/
inductive AuthorityRule where
  | ws | auth | host6 | host | port | path | pathQuery | any
  deriving DecidableEq, Repr

/-- The longest match, the first one of those that are equally long. -/
def longest (ms : List (AuthorityRule × ℕ)) : AuthorityRule × ℕ :=
  ms.foldl (fun best m => if best.2 < m.2 then m else best) (.any, 0)

/-- The rule that wins in the state `authority`, with the length of its match. -/
def authorityToken (s : List Byte) : AuthorityRule × ℕ :=
  longest [(.ws, if s.head?.any isWs then 1 else 0), (.auth, authLength s),
    (.host6, host6Length s), (.host, hostLength s), (.port, portLength s), (.path, pathLength s),
    (.pathQuery, pathQueryLength s), (.any, 1)]

/-! ### The states -/

/-- The value of decimal digits. -/
def decimalValue (digits : List Byte) : ℕ :=
  digits.foldl (fun n c => n * 10 + (c - byte '0').toNat) 0

/-- `Str_parseInt` of digits, `none` for the exception beyond a `long`. -/
def strParseInt (digits : List Byte) : Option (BitVec 32) :=
  if decimalValue digits < 2 ^ 63 then some (BitVec.ofNat 32 (decimalValue digits)) else none

/-- The state `params` on the query. -/
def parseParams : ℕ → List (List Byte × Option (List Byte)) → List Byte →
    Option (List (List Byte × Option (List Byte)))
  | 0, _, _ => none
  | _ + 1, params, [] => some params
  | steps + 1, params, c :: s =>
      if c = byte '=' then
        match params with
        | [] => some []
        | (name, _) :: next =>
            let rest := s.dropWhile isParameterValue
            if rest.head? = some (byte '&') then do
              let value ← urlUnescape (s.takeWhile isParameterValue)
              parseParams steps ((name, some value) :: next) rest.tail
            else do
              -- a value that ends elsewhere is not cut off
              let value ← urlUnescape s
              some ((name, some value) :: next)
      else
        let name := (c :: s).takeWhile isParameterKey
        let rest := (c :: s).dropWhile isParameterKey
        if name ≠ [] ∧ rest.head? = some (byte '=') then
          parseParams steps ((name, none) :: params) rest
        else some params

/-- The state `query`. -/
def parseQuery (U : ZdbUrl) (s : List Byte) : Option ZdbUrl :=
  let query := s.takeWhile isQuery
  if query = [] then some U
  else do
    let params ← parseParams (2 * query.length + 1) U.params query
    some { U with query := some query, params := params }

/-- The state `authority`. -/
def parseAuthority : ℕ → ZdbUrl → List Byte → Option ZdbUrl
  | 0, _, _ => none
  | steps + 1, U, s =>
      if s = [] then some U
      else
        let n := (authorityToken s).2
        match (authorityToken s).1 with
        | .ws => parseAuthority steps U (s.drop n)
        | .auth => do
            let (user, p) := cut (byte ':') (s.take (n - 1))
            let password ← match p with
              | none => some U.password
              | some p => (urlUnescape p).map some
            let user ← urlUnescape user
            parseAuthority steps { U with user := some user, password := password } (s.drop n)
        | .host6 =>
            parseAuthority steps { U with ip6 := true, host := some ((s.take (n - 1)).tail) }
              (s.drop n)
        | .host => parseAuthority steps { U with host := some (s.take n) } (s.drop n)
        | .port => do
            let port ← strParseInt (s.take n).tail
            parseAuthority steps { U with port := port } (s.drop n)
        | .path => do
            let path ← urlUnescape (s.take n)
            some { U with path := some path }
        | .pathQuery => do
            let path ← urlUnescape (s.take (n - 1))
            parseQuery { U with path := some path } (s.drop n)
        | .any => some U

/-- The port of a protocol. -/
def defaultPort (protocol : List Byte) : BitVec 32 :=
  if protocol = ascii "mysql" then 3306
  else if protocol = ascii "postgresql" then 5432
  else if protocol = ascii "oracle" then 1521
  else -1

/-- `URL_new`: the state `proto`, which goes on to the first protocol. -/
def parseUrl : List Byte → Option (Option ZdbUrl)
  | [] => some none
  | c :: s =>
      let protocol := (c :: s).takeWhile isalnum
      let rest := (c :: s).dropWhile isalnum
      if protocol ≠ [] ∧ rest.take 3 = ascii "://" then
        (parseAuthority (rest.length + 1)
          ⟨protocol, defaultPort protocol, none, none, false, none, none, none, []⟩
          (rest.drop 3)).map some
      else parseUrl s

/-! ### The text in front of the path -/

/-- A host of labels with dots between them, and a port. -/
structure HostPort where
  first : List Byte
  others : List (List Byte)
  port : Option (List Byte)
  label : ∀ l ∈ first :: others, l ≠ [] ∧ ∀ c ∈ l, isLabel c = true
  digits : ∀ ds ∈ port, ds ≠ [] ∧ (∀ c ∈ ds, isdigit c = true) ∧ decimalValue ds < 2 ^ 63

namespace HostPort

/-- The labels behind the first one. -/
def othersText (hp : HostPort) : List Byte := hp.others.flatMap fun l => byte '.' :: l

/-- The host. -/
def host (hp : HostPort) : List Byte := hp.first ++ hp.othersText

/-- The port with its colon. -/
def portText (hp : HostPort) : List Byte := hp.port.elim [] (byte ':' :: ·)

/-- The number of the port. -/
def portNumber (hp : HostPort) : BitVec 32 :=
  hp.port.elim 3306 fun ds => BitVec.ofNat 32 (decimalValue ds)

end HostPort

lemma hostTail_label {c : Byte} (h : isLabel c = true) (s : List Byte) :
    hostTail (c :: s) = hostTail s + 1 := by
  cases s with
  | nil => exact if_pos h
  | cons d s => exact if_pos h

lemma hostTail_dot {d : Byte} (h : isLabel d = true) (s : List Byte) :
    hostTail (byte '.' :: d :: s) = hostTail s + 2 := by
  have hdot : ¬ isLabel (byte '.') = true := by decide
  exact (if_neg hdot).trans (if_pos ⟨rfl, h⟩)

lemma hostTail_labels {l : List Byte} (h : ∀ c ∈ l, isLabel c = true) (s : List Byte) :
    hostTail (l ++ s) = l.length + hostTail s := by
  induction l with
  | nil => rw [List.nil_append, List.length_nil, Nat.zero_add]
  | cons c l ih =>
      rw [List.cons_append, hostTail_label (h c List.mem_cons_self),
        ih fun x hx => h x (List.mem_cons_of_mem _ hx), List.length_cons]
      omega

/-- Neither a label nor a dot goes on into what stands behind a host. -/
def EndsHost (rest : List Byte) : Prop := ∀ c ∈ rest.head?, isLabel c = false ∧ c ≠ byte '.'

lemma hostTail_ends {rest : List Byte} (hrest : EndsHost rest) : hostTail rest = 0 := by
  cases rest with
  | nil => rfl
  | cons c rest =>
      obtain ⟨hlabel, hdot⟩ := hrest c rfl
      cases rest with
      | nil => simp [hostTail, hlabel]
      | cons d rest => simp [hostTail, hlabel, hdot]

lemma hostTail_others {ls : List (List Byte)}
    (h : ∀ l ∈ ls, l ≠ [] ∧ ∀ c ∈ l, isLabel c = true) {rest : List Byte}
    (hrest : EndsHost rest) :
    hostTail (ls.flatMap (fun l => byte '.' :: l) ++ rest)
      = (ls.flatMap fun l => byte '.' :: l).length := by
  induction ls with
  | nil => exact hostTail_ends hrest
  | cons l ls ih =>
      obtain ⟨hne, hlabel⟩ := h l List.mem_cons_self
      obtain ⟨d, l, rfl⟩ := List.exists_cons_of_ne_nil hne
      have hrun := hostTail_labels (fun c hc => hlabel c (List.mem_cons_of_mem _ hc))
        (ls.flatMap (fun l => byte '.' :: l) ++ rest)
      rw [ih fun l hl => h l (List.mem_cons_of_mem _ hl)] at hrun
      rw [List.flatMap_cons, List.append_assoc, List.length_append]
      show hostTail (byte '.' :: d :: (l ++ _)) = _
      rw [hostTail_dot (hlabel d List.mem_cons_self), hrun, List.length_cons, List.length_cons]
      omega

/-- The rule takes the whole host. -/
lemma HostPort.hostLength_append (hp : HostPort) {rest : List Byte} (hrest : EndsHost rest) :
    hostLength (hp.host ++ rest) = hp.host.length := by
  obtain ⟨hne, hlabel⟩ := hp.label hp.first List.mem_cons_self
  have hothers := hostTail_others (fun l hl => hp.label l (List.mem_cons_of_mem _ hl)) hrest
  rw [host, List.append_assoc, List.length_append]
  generalize hp.first = first at hne hlabel
  obtain ⟨c, l, rfl⟩ := List.exists_cons_of_ne_nil hne
  have hrun := hostTail_labels (fun c hc => hlabel c (List.mem_cons_of_mem _ hc))
    (hp.othersText ++ rest)
  rw [List.cons_append, hostLength, if_pos (hlabel c List.mem_cons_self), hrun,
    show hostTail (hp.othersText ++ rest) = hp.othersText.length from hothers, List.length_cons]
  omega

lemma of_isLabel : ∀ c : Byte, isLabel c = true →
    isWs c = false ∧ c ≠ byte '[' ∧ c ≠ byte ':' ∧ c ≠ byte '/' ∧ c ≠ byte '@' := by
  decide +kernel

lemma HostPort.at_notMem (hp : HostPort) : byte '@' ∉ hp.host ++ hp.portText := by
  have hlabels : ∀ l ∈ hp.first :: hp.others, byte '@' ∉ l := fun l hl hat =>
    (of_isLabel _ ((hp.label l hl).2 _ hat)).2.2.2.2 rfl
  intro hat
  rcases List.mem_append.mp hat with hat | hat
  · rcases List.mem_append.mp hat with hat | hat
    · exact hlabels _ List.mem_cons_self hat
    · obtain ⟨l, hl, hat⟩ := List.mem_flatMap.mp hat
      rcases List.mem_cons.mp hat with hdot | hat
      · exact absurd hdot (by decide)
      · exact hlabels l (List.mem_cons_of_mem _ hl) hat
  · rw [portText] at hat
    cases hport : hp.port with
    | none =>
        rw [hport] at hat
        exact absurd hat List.not_mem_nil
    | some ds =>
        rw [hport] at hat
        rcases List.mem_cons.mp hat with hcolon | hat
        · exact absurd hcolon (by decide)
        · exact absurd ((hp.digits ds hport).2.1 _ hat) (by decide)

/-! ### The tokens of the URL of a driver -/

/-- The rules that match less do not win. -/
lemma foldl_shorter {ms : List (AuthorityRule × ℕ)} {best : AuthorityRule × ℕ} {n : ℕ}
    (hbest : best.2 < n) (h : ∀ m ∈ ms, m.2 < n) :
    (ms.foldl (fun best m => if best.2 < m.2 then m else best) best).2 < n := by
  induction ms generalizing best with
  | nil => exact hbest
  | cons m ms ih =>
      refine ih ?_ fun m hm => h m (List.mem_cons_of_mem _ hm)
      show (if best.2 < m.2 then m else best).2 < n
      split_ifs
      · exact h m List.mem_cons_self
      · exact hbest

/-- A later rule has to match more. -/
lemma foldl_no_longer {ms : List (AuthorityRule × ℕ)} {best : AuthorityRule × ℕ}
    (h : ∀ m ∈ ms, m.2 ≤ best.2) :
    ms.foldl (fun best m => if best.2 < m.2 then m else best) best = best := by
  induction ms with
  | nil => rfl
  | cons m ms ih =>
      rw [List.foldl_cons, if_neg (Nat.not_lt.mpr (h m List.mem_cons_self))]
      exact ih fun m hm => h m (List.mem_cons_of_mem _ hm)

/-- **The rule that wins**: longer than the ones in front of it, and no shorter
than those behind it. -/
lemma longest_eq (before : List (AuthorityRule × ℕ)) {behind : List (AuthorityRule × ℕ)}
    {rule : AuthorityRule} {n : ℕ} (hn : 0 < n) (hbefore : ∀ m ∈ before, m.2 < n)
    (hbehind : ∀ m ∈ behind, m.2 ≤ n) :
    longest (before ++ (rule, n) :: behind) = (rule, n) := by
  rw [longest, List.foldl_append, List.foldl_cons, if_pos (foldl_shorter hn hbefore)]
  exact foldl_no_longer hbehind

/-- Without an `@` there is no `auth`. -/
lemma authLength_eq_zero {s : List Byte} (h : byte '@' ∉ s) : authLength s = 0 := by
  refine if_neg fun ⟨_, hat⟩ => h ?_
  exact (List.dropWhile_suffix isAuth).subset (List.mem_of_mem_head? hat)

lemma token_host (hp : HostPort) {rest : List Byte} (hrest : EndsHost rest)
    (hat : byte '@' ∉ hp.host ++ rest) :
    authorityToken (hp.host ++ rest) = (.host, hp.host.length) := by
  obtain ⟨hne, hlabel⟩ := hp.label hp.first List.mem_cons_self
  obtain ⟨c, l, hfirst⟩ := List.exists_cons_of_ne_nil hne
  obtain ⟨hws, hbracket, hcolon, hslash, -⟩ := of_isLabel c
    (hlabel c (by rw [hfirst]; exact List.mem_cons_self))
  have hhead : (hp.host ++ rest).head? = some c := by
    rw [HostPort.host, hfirst]
    rfl
  have hpos : 0 < hp.host.length := by
    rw [HostPort.host, hfirst]
    exact Nat.succ_pos _
  simp only [authorityToken, authLength_eq_zero hat, hp.hostLength_append hrest, host6Length,
    portLength, pathLength, pathQueryLength, hhead, Option.any_some, hws, Option.some.injEq,
    hbracket, hcolon, hslash, false_and, if_false, Bool.false_eq_true]
  refine longest_eq [_, _, _] hpos ?_ ?_
  · simpa using hpos
  · simpa using Nat.succ_le_of_lt hpos

lemma token_port {ds rest : List Byte} (hne : ds ≠ []) (hds : ∀ c ∈ ds, isdigit c = true)
    (hrest : Stops isdigit rest) (hat : byte '@' ∉ byte ':' :: (ds ++ rest)) :
    authorityToken (byte ':' :: (ds ++ rest)) = (.port, ds.length + 1) := by
  have hlen : portLength (byte ':' :: (ds ++ rest)) = ds.length + 1 := by
    simp only [portLength, List.tail_cons, takeWhile_stops hds hrest]
    exact if_pos ⟨rfl, hne⟩
  have hws : isWs (byte ':') = false := by decide
  have hlabel : ¬ isLabel (byte ':') = true := by decide
  have hbracket : byte ':' ≠ byte '[' := by decide
  have hslash : byte ':' ≠ byte '/' := by decide
  simp only [authorityToken, authLength_eq_zero hat, hlen, host6Length, hostLength, hlabel,
    pathLength, pathQueryLength, List.head?_cons, Option.any_some, hws, Option.some.injEq,
    hbracket, hslash, false_and, if_false, Bool.false_eq_true]
  refine longest_eq [_, _, _, _] (Nat.succ_pos _) ?_ ?_
  · simp
  · simp

lemma token_path {path rest : List Byte} (hpath : ∀ c ∈ path, isPath c = true)
    (hat : byte '@' ∉ byte '/' :: (path ++ byte '?' :: rest)) :
    authorityToken (byte '/' :: (path ++ byte '?' :: rest)) = (.pathQuery, path.length + 2) := by
  have hstops : Stops isPath (byte '?' :: rest) := stops_cons (by decide) rest
  have hlen : pathLength (byte '/' :: (path ++ byte '?' :: rest)) = path.length + 1 := by
    simp only [pathLength, List.tail_cons, takeWhile_stops hpath hstops]
    exact if_pos rfl
  have hlen2 : pathQueryLength (byte '/' :: (path ++ byte '?' :: rest)) = path.length + 2 := by
    simp only [pathQueryLength, List.tail_cons, takeWhile_stops hpath hstops,
      dropWhile_stops hpath hstops]
    exact if_pos ⟨rfl, rfl⟩
  have hws : isWs (byte '/') = false := by decide
  have hlabel : ¬ isLabel (byte '/') = true := by decide
  have hbracket : byte '/' ≠ byte '[' := by decide
  have hcolon : byte '/' ≠ byte ':' := by decide
  simp only [authorityToken, authLength_eq_zero hat, hlen, hlen2, host6Length, hostLength, hlabel,
    portLength, List.head?_cons, Option.any_some, hws, Option.some.injEq, hbracket, hcolon,
    false_and, if_false, Bool.false_eq_true]
  refine longest_eq [_, _, _, _, _, _] (Nat.succ_pos _) ?_ ?_
  · simp
  · simp

/-! ### The states on the URL of a driver -/

/-- The characters of a code belong to every class behind the authority. -/
lemma classes_of_isSafe : ∀ c : Byte, isSafe c = true →
    isPath c = true ∧ isQuery c = true ∧ isParameterValue c = true ∧ c ≠ byte '@' := by
  decide +kernel

section Params

variable {steps : ℕ} {params : List (List Byte × Option (List Byte))} {name value bs : List Byte}

lemma parseParams_name (hne : name ≠ []) (hname : ∀ c ∈ name, isParameterKey c = true)
    (rest : List Byte) :
    parseParams (steps + 1) params (name ++ byte '=' :: rest)
      = parseParams steps ((name, none) :: params) (byte '=' :: rest) := by
  have hstops : Stops isParameterKey (byte '=' :: rest) := stops_cons (by decide) rest
  have htake := takeWhile_stops hname hstops
  have hdrop := dropWhile_stops hname hstops
  obtain ⟨c, l, rfl⟩ := List.exists_cons_of_ne_nil hne
  have hc : c ≠ byte '=' := fun h => by
    have := hname c List.mem_cons_self
    rw [h] at this
    exact absurd this (by decide)
  rw [List.cons_append] at htake hdrop ⊢
  rw [parseParams.eq_def]
  simp only [if_neg hc, htake, hdrop]
  exact if_pos ⟨hne, rfl⟩

/-- The value of a parameter with its ampersand. -/
lemma parseParams_value (hvalue : ∀ c ∈ value, isParameterValue c = true)
    (hbs : urlUnescape value = some bs) (old : Option (List Byte)) (rest : List Byte) :
    parseParams (steps + 1) ((name, old) :: params) (byte '=' :: (value ++ byte '&' :: rest))
      = parseParams steps ((name, some bs) :: params) rest := by
  have hstops : Stops isParameterValue (byte '&' :: rest) := stops_cons (by decide) rest
  rw [parseParams.eq_def]
  simp only [if_true, takeWhile_stops hvalue hstops, dropWhile_stops hvalue hstops,
    List.head?_cons, hbs, List.tail_cons, Option.bind_eq_bind, Option.bind_some]

/-- The value of the last parameter. -/
lemma parseParams_last (hvalue : ∀ c ∈ value, isParameterValue c = true)
    (hbs : urlUnescape value = some bs) (old : Option (List Byte)) :
    parseParams (steps + 1) ((name, old) :: params) (byte '=' :: value)
      = some ((name, some bs) :: params) := by
  have hdrop := dropWhile_stops hvalue (stops_nil isParameterValue)
  rw [List.append_nil] at hdrop
  rw [parseParams.eq_def]
  simp only [if_true, hdrop, List.head?_nil, reduceCtorEq, if_false, hbs, Option.bind_eq_bind,
    Option.bind_some]

/-- **The parameters of a query**, the last one first. -/
theorem parseParams_query (p : List Byte × CBytes) (ps : List (List Byte × CBytes))
    (h : ∀ q ∈ p :: ps, q.1 ≠ [] ∧ ∀ c ∈ q.1, isParameterKey c = true)
    (hsteps : 2 * (p :: ps).length ≤ steps) :
    parseParams steps params
        ([byte '&'].intercalate ((p :: ps).map fun q => paramText (q.1, encode q.2.bytes)))
      = some (((p :: ps).map fun q => (q.1, some (q.2.bytes.map blank))).reverse ++ params) := by
  induction ps generalizing p steps params with
  | nil =>
      obtain ⟨steps, rfl⟩ := Nat.exists_eq_add_of_le' (show 2 ≤ steps by simpa using hsteps)
      obtain ⟨hne, hname⟩ := h p List.mem_cons_self
      have hvalue : ∀ c ∈ encode p.2.bytes, isParameterValue c = true := fun c hc =>
        (classes_of_isSafe c (isSafe_encode _ c hc)).2.2.1
      show parseParams (steps + 2) params ((p.1 ++ byte '=' :: encode p.2.bytes) ++ []) = _
      rw [List.append_nil, parseParams_name hne hname,
        parseParams_last hvalue (urlUnescape_encode p.2.nul_free)]
      rfl
  | cons q ps ih =>
      rw [List.length_cons] at hsteps
      obtain ⟨steps, rfl⟩ := Nat.exists_eq_add_of_le' (show 2 ≤ steps by omega)
      obtain ⟨hne, hname⟩ := h p List.mem_cons_self
      have hvalue : ∀ c ∈ encode p.2.bytes, isParameterValue c = true := fun c hc =>
        (classes_of_isSafe c (isSafe_encode _ c hc)).2.2.1
      have hq : ∀ q' ∈ q :: ps, q'.1 ≠ [] ∧ ∀ c ∈ q'.1, isParameterKey c = true :=
        fun q' hq' => h q' (List.mem_cons_of_mem _ hq')
      have hsteps' : 2 * (q :: ps).length ≤ steps := by omega
      show parseParams (steps + 2) params ((p.1 ++ byte '=' :: encode p.2.bytes) ++ (byte '&'
        :: [byte '&'].intercalate ((q :: ps).map fun q => paramText (q.1, encode q.2.bytes)))) = _
      rw [List.append_assoc, List.cons_append, parseParams_name hne hname,
        parseParams_value hvalue (urlUnescape_encode p.2.nul_free), ih q hq hsteps']
      show _ = some ((_ :: (q :: ps).map fun q => (q.1, some (q.2.bytes.map blank))).reverse ++ _)
      rw [List.reverse_cons, List.append_assoc]
      rfl

end Params

/-! ### The URL of a driver -/

/-- The text of a host and its port. -/
def HostPort.text (hp : HostPort) : List Byte := hp.host ++ hp.portText

/-- The parameters of a driver, decoded. -/
def credentials (sUser sPass : CBytes) : List (List Byte × CBytes) :=
  [(ascii "user", sUser), (ascii "password", sPass),
    (ascii "connect-timeout", ⟨ascii "5", by decide⟩), (ascii "charset", ⟨ascii "utf8", by decide⟩)]

/-- What `_parseURL` makes of the URL of a driver. -/
def connectionUrl (hp : HostPort) (sUser sPass sSchema : CBytes) (query : List Byte) : ZdbUrl where
  protocol := ascii "mysql"
  port := hp.portNumber
  user := none
  password := none
  ip6 := false
  host := some hp.host
  path := some (byte '/' :: sSchema.bytes.map blank)
  query := some query
  params := ((credentials sUser sPass).map fun q => (q.1, some (q.2.bytes.map blank))).reverse

/-- The query of a driver. -/
def queryText (sUser sPass : CBytes) : List Byte :=
  [byte '&'].intercalate ((credentials sUser sPass).map fun q => paramText (q.1, encode q.2.bytes))

lemma credentials_names (sUser sPass : CBytes) :
    ∀ q ∈ credentials sUser sPass, q.1 ≠ [] ∧ (∀ c ∈ q.1, isParameterKey c = true)
      ∧ ∀ c ∈ q.1, isQuery c = true ∧ c ≠ byte '@' := by
  have huser : ∀ name ∈ [ascii "user", ascii "password", ascii "connect-timeout", ascii "charset"],
      name ≠ [] ∧ (∀ c ∈ name, isParameterKey c = true)
        ∧ ∀ c ∈ name, isQuery c = true ∧ c ≠ byte '@' := by decide
  intro q hq
  refine huser q.1 ?_
  have := List.mem_map_of_mem (f := Prod.fst) hq
  exact this

lemma queryText_class (sUser sPass : CBytes) :
    ∀ c ∈ queryText sUser sPass, isQuery c = true ∧ c ≠ byte '@' := by
  intro c hc
  rcases mem_intercalate hc with rfl | ⟨l, hl, hc⟩
  · decide
  · obtain ⟨q, hq, rfl⟩ := List.mem_map.mp hl
    rcases List.mem_append.mp hc with hc | hc
    · exact (credentials_names sUser sPass q hq).2.2 c hc
    · rcases List.mem_cons.mp hc with rfl | hc
      · decide
      · have hclass := classes_of_isSafe c (isSafe_encode _ c hc)
        exact ⟨hclass.2.1, hclass.2.2.2⟩

lemma parseQuery_queryText (U : ZdbUrl) (hU : U.params = []) (sUser sPass : CBytes) :
    parseQuery U (queryText sUser sPass)
      = some { U with
          query := some (queryText sUser sPass)
          params := ((credentials sUser sPass).map
            fun q => (q.1, some (q.2.bytes.map blank))).reverse } := by
  have htake := takeWhile_stops (fun c hc => (queryText_class sUser sPass c hc).1)
    (stops_nil isQuery)
  rw [List.append_nil] at htake
  have hlen : 4 ≤ (queryText sUser sPass).length := by
    show 4 ≤ ((ascii "user" ++ _) ++ _ : List Byte).length
    rw [List.length_append, List.length_append, show (ascii "user").length = 4 from rfl]
    omega
  have hne : queryText sUser sPass ≠ [] := List.length_pos_iff.mp (by omega)
  have hsteps : 2 * (credentials sUser sPass).length ≤ 2 * (queryText sUser sPass).length + 1 := by
    rw [show (credentials sUser sPass).length = 4 from rfl]
    omega
  have hparams : parseParams (2 * (queryText sUser sPass).length + 1) [] (queryText sUser sPass)
      = some (((credentials sUser sPass).map
          fun q => (q.1, some (q.2.bytes.map blank))).reverse ++ []) :=
    parseParams_query _ _ (fun q hq => ⟨(credentials_names sUser sPass q hq).1,
      (credentials_names sUser sPass q hq).2.1⟩) hsteps
  rw [List.append_nil] at hparams
  simp only [parseQuery, htake, if_neg hne, hU, hparams, Option.bind_eq_bind, Option.bind_some]

/-- The URL of a driver behind its scheme. -/
lemma url_text (hp : HostPort) (sUser sPass sSchema : CBytes) :
    ZdbDriver.url ⟨hp.text, encode sUser.bytes, encode sPass.bytes, encode sSchema.bytes⟩
      = ascii "mysql" ++ (ascii "://" ++ (hp.host ++ (hp.portText ++ (byte '/' ::
          (encode sSchema.bytes ++ byte '?' :: queryText sUser sPass))))) := by
  have hfive : encode (ascii "5") = ascii "5" := by decide
  have hutf8 : encode (ascii "utf8") = ascii "utf8" := by decide
  have hscheme : ascii "mysql://" = ascii "mysql" ++ ascii "://" := by decide
  rw [ZdbDriver.url_eq, hscheme, HostPort.text]
  simp only [queryText, credentials, List.map_cons, List.map_nil, hfive, hutf8, ZdbDriver.params,
    List.append_assoc]

/-- The URL of a driver from its path on. -/
def pathText (sUser sPass sSchema : CBytes) : List Byte :=
  byte '/' :: (encode sSchema.bytes ++ byte '?' :: queryText sUser sPass)

lemma at_notMem_pathText (sUser sPass sSchema : CBytes) :
    byte '@' ∉ pathText sUser sPass sSchema := by
  intro hat
  rcases List.mem_cons.mp hat with hslash | hat
  · exact absurd hslash (by decide)
  · rcases List.mem_append.mp hat with hat | hat
    · exact (classes_of_isSafe _ (isSafe_encode _ _ hat)).2.2.2 rfl
    · rcases List.mem_cons.mp hat with hmark | hat
      · exact absurd hmark (by decide)
      · exact (queryText_class sUser sPass _ hat).2 rfl

section Steps

variable {steps n : ℕ} {U : ZdbUrl} {s : List Byte}

lemma parseAuthority_step_host (hs : s ≠ []) (h : authorityToken s = (.host, n)) :
    parseAuthority (steps + 1) U s
      = parseAuthority steps { U with host := some (s.take n) } (s.drop n) := by
  rw [parseAuthority, if_neg hs]
  simp only [h]

lemma parseAuthority_step_port (hs : s ≠ []) (h : authorityToken s = (.port, n))
    {port : BitVec 32} (hport : strParseInt (s.take n).tail = some port) :
    parseAuthority (steps + 1) U s = parseAuthority steps { U with port := port } (s.drop n) := by
  rw [parseAuthority, if_neg hs]
  simp only [h, hport, Option.bind_eq_bind, Option.bind_some]

lemma parseAuthority_step_path (hs : s ≠ []) (h : authorityToken s = (.pathQuery, n))
    {path : List Byte} (hpath : urlUnescape (s.take (n - 1)) = some path) :
    parseAuthority (steps + 1) U s = parseQuery { U with path := some path } (s.drop n) := by
  rw [parseAuthority, if_neg hs]
  simp only [h, hpath, Option.bind_eq_bind, Option.bind_some]

end Steps

/-- The path and what stands behind it. -/
lemma parseAuthority_path (steps : ℕ) (U : ZdbUrl) (hU : U.params = [])
    (sUser sPass sSchema : CBytes) :
    parseAuthority (steps + 1) U (pathText sUser sPass sSchema)
      = some { U with
          path := some (byte '/' :: sSchema.bytes.map blank)
          query := some (queryText sUser sPass)
          params := ((credentials sUser sPass).map
            fun q => (q.1, some (q.2.bytes.map blank))).reverse } := by
  have hat := at_notMem_pathText sUser sPass sSchema
  have hpath : ∀ c ∈ encode sSchema.bytes, isPath c = true := fun c hc =>
    (classes_of_isSafe c (isSafe_encode _ c hc)).1
  have htoken : authorityToken (pathText sUser sPass sSchema)
      = (.pathQuery, (encode sSchema.bytes).length + 2) := token_path hpath hat
  have htake : (pathText sUser sPass sSchema).take ((encode sSchema.bytes).length + 1)
      = byte '/' :: encode sSchema.bytes := by
    rw [pathText, List.take_succ_cons, List.take_left' rfl]
  have hdrop : (pathText sUser sPass sSchema).drop ((encode sSchema.bytes).length + 2)
      = queryText sUser sPass := by
    rw [pathText, List.drop_succ_cons, ← List.drop_drop, List.drop_left' rfl]
    rfl
  have hdecoded : urlUnescape (byte '/' :: encode sSchema.bytes)
      = some (byte '/' :: sSchema.bytes.map blank) :=
    urlUnescape_cons_encode (by decide) (by decide) (by decide) sSchema.nul_free
  rw [← htake] at hdecoded
  have hne : pathText sUser sPass sSchema ≠ [] := List.cons_ne_nil _ _
  rw [parseAuthority_step_path hne htoken hdecoded, hdrop]
  exact parseQuery_queryText
    { U with path := some (byte '/' :: sSchema.bytes.map blank) } hU sUser sPass

/-- The port, if there is one. -/
lemma parseAuthority_port (steps : ℕ) (U : ZdbUrl) (hport : U.port = 3306) (hU : U.params = [])
    (hp : HostPort) (sUser sPass sSchema : CBytes) :
    parseAuthority (steps + 2) U (hp.portText ++ pathText sUser sPass sSchema)
      = some { U with
          port := hp.portNumber
          path := some (byte '/' :: sSchema.bytes.map blank)
          query := some (queryText sUser sPass)
          params := ((credentials sUser sPass).map
            fun q => (q.1, some (q.2.bytes.map blank))).reverse } := by
  have hat := at_notMem_pathText sUser sPass sSchema
  have hathost := hp.at_notMem
  cases hds : hp.port with
  | none =>
      have htext : hp.portText = [] := by rw [HostPort.portText, hds]; rfl
      have hnumber : hp.portNumber = U.port := by rw [HostPort.portNumber, hds, hport]; rfl
      rw [htext, List.nil_append, parseAuthority_path _ U hU, hnumber]
  | some ds =>
      obtain ⟨hne, hdigits, hsmall⟩ := hp.digits ds hds
      have htext : hp.portText = byte ':' :: ds := by rw [HostPort.portText, hds]; rfl
      have hnumber : strParseInt ds = some hp.portNumber := by
        rw [strParseInt, if_pos hsmall, HostPort.portNumber, hds]
        rfl
      have hatport : byte '@' ∉ byte ':' :: (ds ++ pathText sUser sPass sSchema) := by
        rw [← List.cons_append, ← htext]
        intro h
        rcases List.mem_append.mp h with h | h
        · exact hathost (List.mem_append_right _ h)
        · exact hat h
      have hstops : Stops isdigit (pathText sUser sPass sSchema) := stops_cons (by decide) _
      have htoken := token_port hne hdigits hstops hatport
      have htake : (byte ':' :: (ds ++ pathText sUser sPass sSchema)).take (ds.length + 1)
          = byte ':' :: ds := by
        rw [List.take_succ_cons, List.take_left' rfl]
      have hdrop : (byte ':' :: (ds ++ pathText sUser sPass sSchema)).drop (ds.length + 1)
          = pathText sUser sPass sSchema := by
        rw [List.drop_succ_cons, List.drop_left' rfl]
      change strParseInt (byte ':' :: ds).tail = _ at hnumber
      rw [← htake] at hnumber
      rw [htext, List.cons_append, parseAuthority_step_port (List.cons_ne_nil _ _) htoken hnumber,
        hdrop]
      exact parseAuthority_path _ { U with port := hp.portNumber } hU sUser sPass sSchema

/-- **What libzdb makes of the URL of a driver**: the host and the port it was
given, and the credentials, decoded, in their places. -/
theorem parseUrl_url (hp : HostPort) (sUser sPass sSchema : CBytes) :
    parseUrl (ZdbDriver.url
        ⟨hp.text, encode sUser.bytes, encode sPass.bytes, encode sSchema.bytes⟩)
      = some (some (connectionUrl hp sUser sPass sSchema (queryText sUser sPass))) := by
  have hstops : Stops isalnum (ascii "://"
      ++ (hp.host ++ (hp.portText ++ pathText sUser sPass sSchema))) :=
    stops_cons (by decide) _
  have hname : ∀ c ∈ ascii "mysql", isalnum c = true := by decide
  have hat : byte '@' ∉ hp.host ++ (hp.portText ++ pathText sUser sPass sSchema) := by
    rw [← List.append_assoc]
    intro h
    rcases List.mem_append.mp h with h | h
    · exact hp.at_notMem h
    · exact at_notMem_pathText sUser sPass sSchema h
  have hends : EndsHost (hp.portText ++ pathText sUser sPass sSchema) := by
    intro c hc
    rw [HostPort.portText] at hc
    cases hport : hp.port with
    | none =>
        rw [hport] at hc
        cases hc
        decide
    | some ds =>
        rw [hport] at hc
        cases hc
        decide
  have hne : hp.host ++ (hp.portText ++ pathText sUser sPass sSchema) ≠ [] := by
    rw [pathText, ← List.append_assoc]
    exact List.append_ne_nil_of_right_ne_nil _ (List.cons_ne_nil _ _)
  have hrest : (ascii "://" ++ (hp.host ++ (hp.portText ++ pathText sUser sPass sSchema))).take 3
      = ascii "://" := List.take_left' rfl
  have hdrop : (ascii "://" ++ (hp.host ++ (hp.portText ++ pathText sUser sPass sSchema))).drop 3
      = hp.host ++ (hp.portText ++ pathText sUser sPass sSchema) := List.drop_left' rfl
  have htake := takeWhile_stops hname hstops
  have hdropWhile := dropWhile_stops hname hstops
  rw [url_text, ← pathText]
  change (byte 'm' :: (ascii "ysql" ++ _) : List Byte).takeWhile isalnum = _ at htake
  change (byte 'm' :: (ascii "ysql" ++ _) : List Byte).dropWhile isalnum = _ at hdropWhile
  show parseUrl (byte 'm' :: (ascii "ysql" ++ _)) = _
  rw [parseUrl]
  simp only [htake, hdropWhile, hrest, hdrop]
  rw [if_pos ⟨by decide, trivial⟩]
  show (parseAuthority (_ + 3) _ _).map some = _
  rw [parseAuthority_step_host hne (token_host hp hends hat), List.take_left' rfl,
    List.drop_left' rfl, parseAuthority_port _ _ rfl rfl hp]
  rfl

/-! ### What the connection asks for -/

/-- `URL_getParameter`. -/
def ZdbUrl.getParameter (U : ZdbUrl) (name : List Byte) : Option (List Byte) :=
  (U.params.find? fun p => p.1 = name).bind Prod.snd

/-- **The credentials reach the connection**: the user name, the password and the
database of `MysqlConnection` are what the driver was created with, as long as
the white space in them is blanks. -/
theorem connection_gets (hp : HostPort) (sUser sPass sSchema : CBytes)
    (huser : ∀ c ∈ sUser.bytes, isControlSpace c = false)
    (hpass : ∀ c ∈ sPass.bytes, isControlSpace c = false)
    (hschema : ∀ c ∈ sSchema.bytes, isControlSpace c = false) :
    ∃ U, parseUrl (ZdbDriver.url
          ⟨hp.text, encode sUser.bytes, encode sPass.bytes, encode sSchema.bytes⟩) = some (some U)
      ∧ U.host = some hp.host ∧ U.port = hp.portNumber ∧ U.user = none ∧ U.password = none
      ∧ U.getParameter (ascii "user") = some sUser.bytes
      ∧ U.getParameter (ascii "password") = some sPass.bytes
      ∧ U.path = some (byte '/' :: sSchema.bytes) := by
  refine ⟨_, parseUrl_url hp sUser sPass sSchema, rfl, rfl, rfl, rfl, ?_, ?_, ?_⟩
  · exact congrArg some ((map_blank_iff _).mpr huser)
  · exact congrArg some ((map_blank_iff _).mpr hpass)
  · exact congrArg (fun s => some (byte '/' :: s)) ((map_blank_iff _).mpr hschema)

end PbEntityDb
