import PbEntityDb.Basic
import PbEntityDb.Library.Segments
import PbEntityDb.Url.Code

/-!
The URL of a connection: `ZdbDriver`.

* `ZdbDriver.create` encodes the user name, the password and the schema, and
  `ZdbDriver.openUrl` writes them into the buffer of `Open`.
* `isSafe` is the alphabet of a code: none of the characters that mean something
  in a URL belongs to it.
* `splitUrl` takes a URL apart at these characters, and `splitUrl_openUrl` says
  that it finds what the driver was created with.
-/

namespace PbEntityDb

open Segments

/-! ### The driver -/

/-- The fields of a `ZdbDriver` that its URL is made of. -/
structure ZdbDriver where
  strUrl : List Byte
  strUser : List Byte
  strPass : List Byte
  strSchema : List Byte
  deriving DecidableEq, Repr

namespace ZdbDriver

/-- `ZdbDriver::ZdbDriver`. -/
def create (sURL sUser sPass sSchema : CBytes) : ZdbDriver where
  strUrl := sURL.bytes
  strUser := encode sUser.bytes
  strPass := encode sPass.bytes
  strSchema := encode sSchema.bytes

/-- What the `sprintf` of `ZdbDriver::Open` prints. -/
def url (d : ZdbDriver) : List Byte :=
  ascii "mysql://" ++ d.strUrl ++ ascii "/" ++ d.strSchema ++ ascii "?user=" ++ d.strUser
    ++ ascii "&password=" ++ d.strPass ++ ascii "&connect-timeout=5&charset=utf8"

/-- The buffer `chURL`, with its `MAX_PATH` bytes, behind the `sprintf`. -/
def openUrl (maxPath : ℕ) (d : ZdbDriver) : Except Fault (List Byte) :=
  if d.url.length < maxPath then .ok d.url else .error .bufferOverflow

end ZdbDriver

/-! ### The alphabet of a code -/

/-- The characters that delimit the parts of a URL. -/
def isDelimiter (c : Byte) : Bool :=
  c = byte '/' || c = byte '?' || c = byte '#' || c = byte '@' || c = byte '&' || c = byte '='
    || c = byte ';'

/-- The characters that `Encode` writes. -/
def isSafe (c : Byte) : Bool := isKept c || c = byte '+' || c = byte '%'

lemma isSafe_toHex : ∀ x : Byte, x < 16 → isSafe (toHex x) = true := by decide +kernel

lemma nibbles_lt : ∀ c : Byte, c >>> 4 < 16 ∧ c % 16 < 16 := by decide +kernel

lemma isSafe_encodeByte (c : Byte) : ∀ x ∈ encodeByte c, isSafe x = true := by
  intro x hx
  rw [encodeByte] at hx
  split_ifs at hx with hkept hspace
  · rw [List.mem_singleton.mp hx, isSafe, hkept]
    rfl
  · rw [List.mem_singleton.mp hx]
    decide
  · obtain ⟨hhi, hlo⟩ := nibbles_lt c
    rcases List.mem_cons.mp hx with rfl | hx
    · decide
    · rcases List.mem_cons.mp hx with rfl | hx
      · exact isSafe_toHex _ hhi
      · rw [List.mem_singleton.mp hx]
        exact isSafe_toHex _ hlo

/-- **A code is written in its alphabet.** -/
theorem isSafe_encode (s : List Byte) : ∀ x ∈ encode s, isSafe x = true := by
  induction s with
  | nil => exact fun x hx => absurd hx List.not_mem_nil
  | cons c s ih =>
      intro x hx
      rcases List.mem_append.mp hx with hx | hx
      · exact isSafe_encodeByte c x hx
      · exact ih x hx

lemma not_isDelimiter_of_isSafe : ∀ c : Byte, isSafe c = true → isDelimiter c = false := by
  decide +kernel

lemma delimiter_notMem_encode {d : Byte} (hd : isDelimiter d = true) (s : List Byte) :
    d ∉ encode s := fun h => by
  have hsafe := not_isDelimiter_of_isSafe d (isSafe_encode s d h)
  rw [hd] at hsafe
  cases hsafe

/-- A host, with a port or without one. -/
structure HostText where
  text : CBytes
  plain : ∀ c ∈ text.bytes, isDelimiter c = false

/-! ### Taking a URL apart -/

/-- The parts of a URL; a parameter without an equals sign has no value. -/
structure UrlParts where
  authority : List Byte
  path : List Byte
  params : List (List Byte × Option (List Byte))
  deriving DecidableEq, Repr

/-- The authority of a URL of MySQL goes to the first slash, the path behind it to
the first question mark, and the ampersands behind that separate the parameters,
each of them with its name in front of its first equals sign. -/
def splitUrl (url : List Byte) : Option UrlParts :=
  if url.take 8 = ascii "mysql://" then do
    let (authority, rest) := cut (byte '/') (url.drop 8)
    let (path, query) := cut (byte '?') (← rest)
    let params := ((← query).splitOn (byte '&')).map (cut (byte '='))
    some ⟨authority, path, params⟩
  else none

/-- The parameters of the URL of a driver, in their order. -/
def ZdbDriver.params (d : ZdbDriver) : List (List Byte × List Byte) :=
  [(ascii "user", d.strUser), (ascii "password", d.strPass),
    (ascii "connect-timeout", ascii "5"), (ascii "charset", ascii "utf8")]

/-- A parameter in a URL. -/
def paramText (p : List Byte × List Byte) : List Byte := p.1 ++ byte '=' :: p.2

/-- The URL from its parts. -/
lemma ZdbDriver.url_eq (d : ZdbDriver) :
    d.url = ascii "mysql://" ++ (d.strUrl ++ byte '/' :: (d.strSchema
      ++ byte '?' :: [byte '&'].intercalate (d.params.map paramText))) := by
  have huser : ascii "?user=" = byte '?' :: (ascii "user" ++ [byte '=']) := by decide
  have hpass : ascii "&password=" = byte '&' :: (ascii "password" ++ [byte '=']) := by decide
  have hrest : ascii "&connect-timeout=5&charset=utf8"
      = byte '&' :: (ascii "connect-timeout" ++ byte '=' :: (ascii "5"
        ++ byte '&' :: (ascii "charset" ++ byte '=' :: ascii "utf8"))) := by decide
  have hquery : [byte '&'].intercalate (d.params.map paramText)
      = ascii "user" ++ byte '=' :: (d.strUser ++ byte '&' :: (ascii "password"
        ++ byte '=' :: (d.strPass ++ byte '&' :: (ascii "connect-timeout"
        ++ byte '=' :: (ascii "5" ++ byte '&' :: (ascii "charset"
        ++ byte '=' :: ascii "utf8")))))) := by
    simp only [params, paramText, List.map_cons, List.map_nil, List.intercalate,
      List.intersperse_cons_cons, List.intersperse_singleton, List.flatten_cons, List.flatten_nil,
      List.append_assoc, List.cons_append, List.nil_append, List.append_nil]
  have hslash : ascii "/" = [byte '/'] := rfl
  simp only [url, huser, hpass, hrest, hquery, hslash, List.append_assoc, List.cons_append,
    List.nil_append]

/-! ### The credentials and the URL -/

lemma notMem_of_plain {d : Byte} (hd : isDelimiter d = true) {s : List Byte}
    (h : ∀ c ∈ s, isDelimiter c = false) : d ∉ s := fun hmem => by
  have hno := h d hmem
  rw [hd] at hno
  cases hno

/-- The parameters of a new driver have no delimiter. -/
lemma params_create (sURL sUser sPass sSchema : CBytes) :
    ∀ p ∈ (ZdbDriver.create sURL sUser sPass sSchema).params,
      (∀ c ∈ p.1, isDelimiter c = false) ∧ ∀ c ∈ p.2, isDelimiter c = false := by
  have hsafe : ∀ s : List Byte, ∀ c ∈ encode s, isDelimiter c = false := fun s c hc =>
    not_isDelimiter_of_isSafe c (isSafe_encode s c hc)
  have huser : ∀ c ∈ ascii "user", isDelimiter c = false := by decide
  have hpass : ∀ c ∈ ascii "password", isDelimiter c = false := by decide
  intro p hp
  simp only [ZdbDriver.params, ZdbDriver.create, List.mem_cons, List.not_mem_nil, or_false] at hp
  rcases hp with rfl | rfl | rfl | rfl
  · exact ⟨huser, hsafe _⟩
  · exact ⟨hpass, hsafe _⟩
  · exact ⟨by decide, by decide⟩
  · exact ⟨by decide, by decide⟩

/-- The query is taken apart at its ampersands and equals signs. -/
lemma split_params (ps : List (List Byte × List Byte)) (hps : ps ≠ [])
    (h : ∀ p ∈ ps, (∀ c ∈ p.1, isDelimiter c = false) ∧ ∀ c ∈ p.2, isDelimiter c = false) :
    (([byte '&'].intercalate (ps.map paramText)).splitOn (byte '&')).map (cut (byte '='))
      = ps.map fun p => (p.1, some p.2) := by
  have hamp : ∀ l ∈ ps.map paramText, byte '&' ∉ l := by
    intro l hl hmem
    obtain ⟨p, hp, rfl⟩ := List.mem_map.mp hl
    obtain ⟨hname, hvalue⟩ := h p hp
    rcases List.mem_append.mp hmem with hmem | hmem
    · exact notMem_of_plain (by decide) hname hmem
    · rcases List.mem_cons.mp hmem with heq | hmem
      · exact absurd heq (by decide)
      · exact notMem_of_plain (by decide) hvalue hmem
  rw [List.splitOn_intercalate _ hamp (by simpa using hps), List.map_map]
  refine List.map_congr_left fun p hp => ?_
  exact cut_append (notMem_of_plain (by decide) (h p hp).1) p.2

lemma splitUrl_parts {authority path query : List Byte} (hauthority : byte '/' ∉ authority)
    (hpath : byte '?' ∉ path) :
    splitUrl (ascii "mysql://" ++ (authority ++ byte '/' :: (path ++ byte '?' :: query)))
      = some ⟨authority, path, (query.splitOn (byte '&')).map (cut (byte '='))⟩ := by
  have hlen : (ascii "mysql://").length = 8 := rfl
  rw [splitUrl, List.take_left' hlen, if_pos rfl, List.drop_left' hlen]
  simp only [cut_append hauthority, cut_append hpath, Option.bind_eq_bind, Option.bind_some]

/-- The text of the URL around what is put in. -/
def urlFormat : List Byte :=
  ascii "mysql://" ++ (ascii "/" ++ (ascii "?user=" ++ (ascii "&password="
    ++ ascii "&connect-timeout=5&charset=utf8")))

/-- The characters of the URL: those of the format, and those that are put in. -/
lemma ZdbDriver.mem_url {d : ZdbDriver} {x : Byte} (h : x ∈ d.url) :
    x ∈ urlFormat ∨ x ∈ d.strUrl ∨ x ∈ d.strSchema ∨ x ∈ d.strUser ∨ x ∈ d.strPass := by
  simp only [url, urlFormat, List.mem_append] at h ⊢
  tauto

/-- A delimiter that the format does not have is not in the URL. -/
lemma notMem_url {d : Byte} (hd : isDelimiter d = true) (hformat : d ∉ urlFormat)
    (host : HostText) (sUser sPass sSchema : CBytes) :
    d ∉ (ZdbDriver.create host.text sUser sPass sSchema).url := by
  intro hmem
  rcases ZdbDriver.mem_url hmem with h | h | h | h | h
  · exact hformat h
  · exact notMem_of_plain hd host.plain h
  · exact delimiter_notMem_encode hd _ h
  · exact delimiter_notMem_encode hd _ h
  · exact delimiter_notMem_encode hd _ h

/-- **Credentials cannot alter the URL**: a URL that fits is taken apart into the
host, the code of the schema as the only segment of the path, and the four
parameters, and it has no fragment and no user of its own. -/
theorem splitUrl_openUrl (maxPath : ℕ) (host : HostText) (sUser sPass sSchema : CBytes)
    (url : List Byte)
    (h : (ZdbDriver.create host.text sUser sPass sSchema).openUrl maxPath = .ok url) :
    splitUrl url = some
        { authority := host.text.bytes
          path := encode sSchema.bytes
          params := [(ascii "user", some (encode sUser.bytes)),
            (ascii "password", some (encode sPass.bytes)),
            (ascii "connect-timeout", some (ascii "5")), (ascii "charset", some (ascii "utf8"))] }
      ∧ byte '/' ∉ encode sSchema.bytes ∧ byte '#' ∉ url ∧ byte '@' ∉ url := by
  have hurl : url = (ZdbDriver.create host.text sUser sPass sSchema).url := by
    rw [ZdbDriver.openUrl] at h
    split_ifs at h
    exact (Except.ok.inj h).symm
  have hslash : byte '/' ∉ host.text.bytes := notMem_of_plain (by decide) host.plain
  have hmark : byte '?' ∉ encode sSchema.bytes := delimiter_notMem_encode (by decide) _
  have hparams := split_params (ZdbDriver.create host.text sUser sPass sSchema).params
    (List.cons_ne_nil _ _) (params_create host.text sUser sPass sSchema)
  refine ⟨?_, delimiter_notMem_encode (by decide) _, ?_, ?_⟩
  · rw [hurl, ZdbDriver.url_eq]
    exact (splitUrl_parts hslash hmark).trans (congrArg some (by rw [hparams]; rfl))
  · rw [hurl]
    exact notMem_url (by decide) (by decide) host sUser sPass sSchema
  · rw [hurl]
    exact notMem_url (by decide) (by decide) host sUser sPass sSchema

/-- A host with a port. -/
def localhost : HostText := ⟨⟨ascii "localhost:3306", by decide⟩, by decide⟩

/-- A password that looks like one more parameter. -/
def greedyPass : CBytes := ⟨ascii "a&charset=b", by decide⟩

/-- A driver with such a password. -/
def greedyDriver : ZdbDriver :=
  .create localhost.text ⟨ascii "root", by decide⟩ greedyPass ⟨ascii "test", by decide⟩

lemma greedyDriver_fits : greedyDriver.openUrl 260 = .ok greedyDriver.url :=
  if_pos (by decide +kernel)

/-- The password stays in its place. -/
theorem splitUrl_greedyDriver :
    splitUrl greedyDriver.url = some
        { authority := localhost.text.bytes
          path := encode (ascii "test")
          params := [(ascii "user", some (encode (ascii "root"))),
            (ascii "password", some (encode greedyPass.bytes)),
            (ascii "connect-timeout", some (ascii "5")), (ascii "charset", some (ascii "utf8"))] }
      ∧ byte '/' ∉ encode (ascii "test")
      ∧ byte '#' ∉ greedyDriver.url ∧ byte '@' ∉ greedyDriver.url :=
  splitUrl_openUrl 260 localhost ⟨ascii "root", by decide⟩ greedyPass ⟨ascii "test", by decide⟩ _
    greedyDriver_fits

end PbEntityDb
