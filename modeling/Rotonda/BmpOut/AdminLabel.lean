import Rotonda.BmpOut.Builder

/-!
The admin label of a peer, read back as JSON: an object of strings, without blanks between its
tokens.  To the reader a pair of surrogates is no character.

* `readQuoted_escape`: an escaped string is read as the string;
* `parseObject_buildAdminLabelJson`: the label has the name and the description, unless they are
  missing, empty or placeholders.
-/

namespace Rotonda.BmpOut

def hexDigit (c : Char) : Option Nat :=
  let n := c.toNat
  if 48 ≤ n ∧ n < 58 then some (n - 48)
  else if 65 ≤ n ∧ n < 71 then some (n - 55)
  else if 97 ≤ n ∧ n < 103 then some (n - 87)
  else none

def hexChar (digits : List Char) : Option Char := do
  let n ← digits.foldlM (fun n c => (hexDigit c).map (16 * n + ·)) 0
  if n.isValidChar then some (Char.ofNat n) else none

/-- The character that a letter after a backslash stands for. -/
def unescape (c : Char) : Option Char :=
  match c.toNat with
  | 34 | 47 | 92 => some c
  | 98 => some (Char.ofNat 8)
  | 102 => some (Char.ofNat 12)
  | 110 => some (Char.ofNat 10)
  | 114 => some (Char.ofNat 13)
  | 116 => some (Char.ofNat 9)
  | _ => none

/-- The next character of a string, or none at its closing quote. -/
def readChar : List Char → Option (Option Char × List Char)
  | [] => none
  | c :: cs =>
    if c.toNat = 34 then some (none, cs)
    else if c.toNat = 92 then
      match cs with
      | [] => none
      | e :: cs =>
        if e.toNat = 117 then (hexChar (cs.take 4)).map fun c => (some c, cs.drop 4)
        else (unescape e).map fun c => (some c, cs)
    else if c.toNat < 32 then none
    else some (some c, cs)

def readString : Nat → List Char → Option (List Char × List Char)
  | 0, _ => none
  | n + 1, cs => do
    match ← readChar cs with
    | (none, cs) => some ([], cs)
    | (some c, cs) => (readString n cs).map fun (s, cs) => (c :: s, cs)

def readQuoted : List Char → Option (List Char × List Char)
  | [] => none
  | c :: cs => if c.toNat = 34 then readString cs.length cs else none

def readMember (cs : List Char) : Option ((String × String) × List Char) := do
  match ← readQuoted cs with
  | (_, []) => none
  | (key, c :: cs) =>
    if c.toNat = 58 then (readQuoted cs).map fun (value, cs) => ((.ofList key, .ofList value), cs)
    else none

def readMembers : Nat → List Char → Option (List (String × String))
  | 0, _ => none
  | n + 1, cs => do
    match ← readMember cs with
    | (_, []) => none
    | (m, c :: cs) =>
      if c.toNat = 44 then (readMembers n cs).map (m :: ·)
      else if c.toNat = 125 ∧ cs = [] then some [m]
      else none

def parseObject (s : String) : Option (List (String × String)) :=
  match s.toList with
  | [] => none
  | c :: cs =>
    if c.toNat = 123 then if cs = [Char.ofNat 125] then some [] else readMembers cs.length cs
    else none

/-! ## Escaped strings -/

/-- Control characters have four digits. -/
theorem hexChar_toDigits : ∀ n < 160,
    let hex := List.replicate (4 - (Nat.toDigits 16 n).length) (Char.ofNat 48) ++ Nat.toDigits 16 n
    hex.length = 4 ∧ hexChar hex = some (Char.ofNat n) := by
  decide +kernel

theorem readChar_escapeJsonChar (c : Char) (cs : List Char) :
    readChar (escapeJsonChar c ++ cs) = some (some c, cs) := by
  have hc : ∀ {n}, c.toNat = n → c = Char.ofNat n := fun h => h ▸ (Char.ofNat_toNat c).symm
  unfold escapeJsonChar
  split
  iterate 5
    next h => cases hc h; rfl
  · split
    next hcontrol =>
      obtain ⟨hlen, hhex⟩ := hexChar_toDigits c.toNat (by omega)
      rw [Char.ofNat_toNat] at hhex
      rw [List.append_assoc (escaped 117), List.append_assoc (escaped 117)]
      generalize List.replicate (4 - (Nat.toDigits 16 c.toNat).length) (Char.ofNat 48) ++
        Nat.toDigits 16 c.toNat = hex at hlen hhex ⊢
      have hread : readChar (escaped 117 ++ (hex ++ cs)) =
        (hexChar ((hex ++ cs).take 4)).map fun c => (some c, (hex ++ cs).drop 4) := rfl
      rw [hread, ← hlen, List.take_left, List.drop_left, hhex]
      rfl
    · simp_all [readChar]

theorem readString_escape (s cs : List Char) {n : Nat} (hn : s.length < n) :
    readString n (s.flatMap escapeJsonChar ++ Char.ofNat 34 :: cs) = some (s, cs) := by
  induction s generalizing n with
  | nil =>
    obtain ⟨n, rfl⟩ := Nat.exists_eq_add_of_lt hn
    rfl
  | cons c s ih =>
    obtain ⟨n, rfl⟩ := Nat.exists_eq_add_of_lt hn
    have hrest := @ih (s.length + 1 + n) (by omega)
    simp [readString, readChar_escapeJsonChar, hrest]

theorem length_le_escape (s : List Char) : s.length ≤ (s.flatMap escapeJsonChar).length := by
  induction s with
  | nil => simp
  | cons c s ih =>
    have hpos : 0 < (escapeJsonChar c).length := by
      unfold escapeJsonChar
      split <;> simp [escaped]
      split <;> simp
    rw [List.flatMap_cons, List.length_append, List.length_cons]
    omega

theorem readQuoted_escape (s cs : List Char) :
    readQuoted (Char.ofNat 34 :: (s.flatMap escapeJsonChar ++ Char.ofNat 34 :: cs)) =
      some (s, cs) := by
  have hlen := length_le_escape s
  exact readString_escape s cs (by rw [List.length_append, List.length_cons]; omega)

/-! ## The label -/

/-- A member with a key that has nothing to escape. -/
def memberText (key value : String) : List Char :=
  Char.ofNat 34 :: (key.toList ++ Char.ofNat 34 :: Char.ofNat 58 :: Char.ofNat 34 ::
    (value.toList.flatMap escapeJsonChar ++ [Char.ofNat 34]))

variable {key : String} (value : String) {c : Char} {cs : List Char} {n : Nat}

theorem readMembers_memberText (hkey : key.toList.flatMap escapeJsonChar = key.toList) :
    readMembers (n + 1) (memberText key value ++ c :: cs) =
      if c.toNat = 44 then (readMembers n cs).map ((key, value) :: ·)
      else if c.toNat = 125 ∧ cs = [] then some [(key, value)]
      else none := by
  have hquoted := readQuoted_escape key.toList (Char.ofNat 58 :: Char.ofNat 34 ::
    (value.toList.flatMap escapeJsonChar ++ Char.ofNat 34 :: c :: cs))
  rw [hkey] at hquoted
  simp [readMembers, readMember, memberText, hquoted, readQuoted_escape]

theorem parseObject_eq {text : String} (key : String) (cs : List Char)
    (h : text.toList = Char.ofNat 123 :: (memberText key value ++ cs)) : parseObject text =
      readMembers (memberText key value ++ cs).length (memberText key value ++ cs) := by
  simp [parseObject, h, memberText]

theorem parseObject_single {text : String} (key : String)
    (hkey : key.toList.flatMap escapeJsonChar = key.toList)
    (h : text.toList = Char.ofNat 123 :: (memberText key value ++ [Char.ofNat 125])) :
    parseObject text = some [(key, value)] := by
  rw [parseObject_eq value key _ h]
  exact readMembers_memberText value hkey

/-- The field of a text that is there, not empty and no placeholder. -/
def field (key placeholder : String) : Option String → List (String × String)
  | some s => if s = "" ∨ s = placeholder then [] else [(key, s)]
  | none => []

theorem field_eq (key placeholder : String) (text : Option String) :
    field key placeholder text =
      (text.filter fun s => s != placeholder && !s.isEmpty).toList.map fun s => (key, s) := by
  cases text with
  | none => rfl
  | some s =>
    by_cases hempty : s = "" <;> by_cases hplaceholder : s = placeholder <;>
      simp_all [field, Option.filter]

theorem parseObject_buildAdminLabelJson (name desc : Option String) :
    (buildAdminLabelJson name desc).map parseObject =
      let fields := field "sysName" "no-sysname" name ++ field "sysDescr" "no-sysdesc" desc
      if fields = [] then none else some (some fields) := by
  simp only [buildAdminLabelJson, field_eq]
  cases name.filter fun s => s != "no-sysname" && !s.isEmpty with
  | none =>
    cases desc.filter fun s => s != "no-sysdesc" && !s.isEmpty with
    | none => rfl
    | some d =>
      refine congrArg some (parseObject_single d "sysDescr" rfl ?_)
      simp [memberText, escapeJsonString]
  | some n =>
    cases desc.filter fun s => s != "no-sysdesc" && !s.isEmpty with
    | none =>
      refine congrArg some (parseObject_single n "sysName" rfl ?_)
      simp [memberText, escapeJsonString]
    | some d =>
      refine congrArg some ((parseObject_eq n "sysName"
        (Char.ofNat 44 :: (memberText "sysDescr" d ++ [Char.ofNat 125])) ?_).trans
          ((readMembers_memberText n rfl).trans ?_))
      · simp [memberText, escapeJsonString]
      · exact congrArg (Option.map _) (readMembers_memberText d rfl)

end Rotonda.BmpOut
