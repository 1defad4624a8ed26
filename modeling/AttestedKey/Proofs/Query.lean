import AttestedKey.Base64
import AttestedKey.Http
import AttestedKey.Proofs.Text

/-! Parameters of requests on their way through a query and through base64. `Query.read` takes a
query apart as a server does, and finds the parameters that were put into it (`Query.read_query`),
whatever their characters: no character of a parameter is written as one that ends it. Likewise
base64 gives back all octets (`Base64.decode?_encode`). -/

namespace AttestedKey

namespace Base64

variable (a : Alphabet)

theorem value?_char {n : Nat} (h : n < 64) : a.value? (a.char n) = some n := by
  have hall : ∀ a : Alphabet, ∀ n < 64, a.value? (a.char n) = some n := by
    intro a
    cases a <;> decide
  exact hall a n h

theorem char_ne_padding {n : Nat} (h : n < 64) : a.char n ≠ '=' := by
  have hall : ∀ a : Alphabet, ∀ n < 64, a.char n ≠ '=' := by
    intro a
    cases a <;> decide
  exact hall a n h

theorem decodeChars_encodeChars (bs : Octets) : decodeChars a (encodeChars a bs) = some bs := by
  induction bs using encodeChars.induct with
  | case1 => rfl
  | case2 x =>
    have hx := x.toNat_lt
    rw [encodeChars, decodeChars, value?_char a (by omega), value?_char a (by omega)]
    simp only [Option.bind_eq_bind, Option.bind_some]
    rw [if_pos (by omega), Utf8.ofNat_eq (b := x) (by omega)]
  | case3 x y =>
    have hx := x.toNat_lt
    have hy := y.toNat_lt
    rw [encodeChars, decodeChars.eq_3 a _ _ _ (char_ne_padding a (by omega)),
      value?_char a (by omega), value?_char a (by omega), value?_char a (by omega)]
    simp only [Option.bind_eq_bind, Option.bind_some]
    rw [if_pos (by omega), Utf8.ofNat_eq (b := x) (by omega), Utf8.ofNat_eq (b := y) (by omega)]
  | case4 x y z rest ih =>
    have hx := x.toNat_lt
    have hy := y.toNat_lt
    have hz := z.toNat_lt
    -- the last of the four characters is no padding
    have hlast : a.char (((x.toNat * 256 + y.toNat) * 256 + z.toNat) % 64) ≠ '=' :=
      char_ne_padding a (by omega)
    rw [encodeChars, decodeChars.eq_4 a _ _ _ _ _ (fun _ h _ => hlast h) (fun h _ => hlast h),
      value?_char a (by omega), value?_char a (by omega), value?_char a (by omega),
      value?_char a (by omega), ih]
    simp only [Option.bind_eq_bind, Option.bind_some, Option.pure_def]
    rw [Utf8.ofNat_eq (b := x) (by omega), Utf8.ofNat_eq (b := y) (by omega),
      Utf8.ofNat_eq (b := z) (by omega)]

theorem decode?_encode (bs : Octets) : decode? a (encode a bs) = some bs := by
  rw [decode?, encode, String.toList_ofList, decodeChars_encodeChars]

end Base64

/-! A query is read the way forms are sent: pairs between `&`, name and value on the two sides of
the first `=`. -/

namespace Query

/-- The octets that characters of a name or a value stand for: a plus sign is a blank, and `%` with
two hexadecimal digits an octet. -/
def octets : List Char → Octets
  | [] => []
  | '%' :: a :: b :: cs =>
    match Octets.hexValue? a, Octets.hexValue? b with
    | some x, some y => UInt8.ofNat (x * 16 + y) :: octets cs
    | _, _ => 0x25 :: octets (a :: b :: cs)
  | c :: cs => (if c = '+' then [0x20] else Utf8.encodeChar c) ++ octets cs

def text (cs : List Char) : String := Utf8.decodeLossy (octets cs)

def pair (cs : List Char) : String × String :=
  (text (cs.takeWhile (· ≠ '=')), text ((cs.dropWhile (· ≠ '=')).drop 1))

def read (query : String) : List (String × String) :=
  ((query.toList.splitOn '&').filter (· ≠ [])).map pair

/-- What stands for itself is one octet as a character, and none of the marks of a query. -/
theorem isPlain_spec {b : UInt8} (h : HttpRequest.isPlain b = true) :
    Utf8.encodeChar (Char.ofNat b.toNat) = [b] ∧
      ∀ mark ∈ ['%', '+', '=', '&'], Char.ofNat b.toNat ≠ mark := by
  have hn : 0x2A ≤ b.toNat ∧ b.toNat < 0x80 ∧ b.toNat ≠ 0x2B ∧ b.toNat ≠ 0x3D := by
    simp [HttpRequest.isPlain, UInt8.le_iff_toNat_le, ← UInt8.toNat_inj] at h
    omega
  have hchar : (Char.ofNat b.toNat).toNat = b.toNat := Utf8.toNat_ofNat (by omega)
  constructor
  · rw [Utf8.encodeChar_one hn.2.1, UInt8.ofNat_toNat]
  · intro mark hmark heq
    have hmark' : b.toNat ∈ ['%', '+', '=', '&'].map Char.toNat := by
      rw [← hchar, heq]
      exact List.mem_map_of_mem hmark
    simp at hmark'
    omega

theorem hexValue?_capitalHex {n : Nat} (h : n < 16) :
    Octets.hexValue? (HttpRequest.capitalHex n) = some n := by
  have hall : ∀ n < 16, Octets.hexValue? (HttpRequest.capitalHex n) = some n := by decide
  exact hall n h

theorem octets_parameterChars (b : UInt8) (cs : List Char) :
    octets (HttpRequest.parameterChars b ++ cs) = b :: octets cs := by
  unfold HttpRequest.parameterChars
  by_cases hplain : HttpRequest.isPlain b = true
  · obtain ⟨hchar, hmarks⟩ := isPlain_spec hplain
    rw [if_pos hplain, List.singleton_append, octets.eq_3, if_neg (hmarks '+' (by decide)), hchar,
      List.singleton_append]
    intro x y zs hpercent _
    exact hmarks '%' (by decide) hpercent
  · rw [if_neg hplain]
    by_cases hblank : b = 0x20
    · rw [if_pos hblank, hblank]
      rfl
    · have hb := b.toNat_lt
      rw [if_neg hblank, List.cons_append, List.cons_append, List.cons_append, List.nil_append,
        octets, hexValue?_capitalHex (by omega), hexValue?_capitalHex (by omega)]
      simp only
      rw [show b.toNat / 16 * 16 + b.toNat % 16 = b.toNat by omega, UInt8.ofNat_toNat]

theorem text_parameterText (s : String) : text (HttpRequest.parameterText s).toList = s := by
  have hall : ∀ bs : Octets, octets (bs.flatMap HttpRequest.parameterChars) = bs := by
    intro bs
    induction bs with
    | nil => rfl
    | cons b bs ih => rw [List.flatMap_cons, octets_parameterChars, ih]
  rw [text, HttpRequest.parameterText, String.toList_ofList, hall, Utf8.decodeLossy_encode]

theorem mem_parameterText {s : String} {c : Char} (h : c ∈ (HttpRequest.parameterText s).toList) :
    c ≠ '=' ∧ c ≠ '&' := by
  rw [HttpRequest.parameterText, String.toList_ofList] at h
  obtain ⟨b, -, h⟩ := List.mem_flatMap.1 h
  have hdigit : ∀ n < 16, HttpRequest.capitalHex n ≠ '=' ∧ HttpRequest.capitalHex n ≠ '&' := by
    decide
  have hb := b.toNat_lt
  unfold HttpRequest.parameterChars at h
  split at h
  · next hplain =>
    obtain ⟨-, hmarks⟩ := isPlain_spec hplain
    rw [List.mem_singleton.1 h]
    exact ⟨hmarks '=' (by decide), hmarks '&' (by decide)⟩
  · split at h
    · rw [List.mem_singleton.1 h]
      decide
    · rcases List.mem_cons.1 h with rfl | h
      · decide
      · rcases List.mem_cons.1 h with rfl | h
        · exact hdigit _ (by omega)
        · rw [List.mem_singleton.1 h]
          exact hdigit _ (by omega)

def written (parameter : String × String) : String :=
  HttpRequest.parameterText parameter.1 ++ "=" ++ HttpRequest.parameterText parameter.2

theorem toList_written (parameter : String × String) :
    (written parameter).toList = (HttpRequest.parameterText parameter.1).toList ++
      '=' :: (HttpRequest.parameterText parameter.2).toList := by
  simp [written]

theorem pair_written (parameter : String × String) :
    pair (written parameter).toList = parameter := by
  have hname : ∀ c ∈ (HttpRequest.parameterText parameter.1).toList, decide (c ≠ '=') = true := by
    intro c hc
    exact decide_eq_true (mem_parameterText hc).1
  rw [pair, toList_written, List.takeWhile_append_of_pos hname, List.dropWhile_append_of_pos hname]
  simp [text_parameterText]

theorem not_mem_written (parameter : String × String) : '&' ∉ (written parameter).toList := by
  rw [toList_written]
  intro h
  rcases List.mem_append.1 h with h | h
  · exact (mem_parameterText h).2 rfl
  · rcases List.mem_cons.1 h with h | h
    · cases h
    · exact (mem_parameterText h).2 rfl

def ofParameters (parameters : List (String × String)) : String :=
  "&".intercalate (parameters.map written)

theorem read_ofParameters (parameters : List (String × String)) :
    read (ofParameters parameters) = parameters := by
  cases parameters with
  | nil => rfl
  | cons parameter parameters =>
    have hsplit : (ofParameters (parameter :: parameters)).toList.splitOn '&' =
        (parameter :: parameters).map fun parameter => (written parameter).toList := by
      rw [ofParameters, String.toList_intercalate, List.map_map]
      refine List.splitOn_intercalate '&' ?_ (by simp)
      intro cs hcs
      obtain ⟨parameter', -, rfl⟩ := List.mem_map.1 hcs
      exact not_mem_written parameter'
    have hne : ∀ parameter : String × String, (written parameter).toList ≠ [] := by
      intro parameter
      simp [toList_written]
    rw [read, hsplit, List.filter_eq_self.2, List.map_map]
    · simp [Function.comp_def, pair_written]
    · intro cs hcs
      obtain ⟨parameter', -, rfl⟩ := List.mem_map.1 hcs
      exact decide_eq_true (hne parameter')

example :
    read "challenge=AQ%3D%3D&requestId=a+b" = [("challenge", "AQ=="), ("requestId", "a b")] := by
      rfl

/-- The address of a request ends in the query. -/
theorem url_eq {r : HttpRequest} (h : r.parameters ≠ []) :
    r.url = r.address ++ (if r.address.contains '?' then "&" else "?") ++
      ofParameters r.parameters := by
  have hpairs : (r.parameters.map written).isEmpty = false := by simpa using h
  unfold HttpRequest.url
  change (if (r.parameters.map written).isEmpty then r.address else _) = _
  rw [hpairs]
  rfl

end Query

end AttestedKey
