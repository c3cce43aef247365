import Yali.Spec.Router

/-!
# Host matching is equality of names

A host is written as a name with an optional port and whitespace around it
(`HostText`). `normalize_host` finds the name again and lowercases it
(`normalizeHost_eq`), so two hosts match iff their names are equal up to the case of
ASCII letters.
-/

namespace Yali

open Router

/-! ## ASCII letters -/

/-- `to_ascii_lowercase`, on codes. -/
theorem toNat_toLower (c : Char) :
    c.toLower.toNat = if 65 ≤ c.toNat ∧ c.toNat ≤ 90 then c.toNat + 32 else c.toNat := by
  unfold Char.toLower
  split
  · rename_i h
    have h1 : 65 ≤ c.toNat := h.1
    have h2 : c.toNat ≤ 90 := h.2
    rw [if_pos ⟨h1, h2⟩]
    show (c.val + 32).toNat = c.toNat + 32
    rw [UInt32.toNat_add]
    show (c.toNat + 32) % 2 ^ 32 = c.toNat + 32
    omega
  · rename_i h
    rw [if_neg]
    intro h'
    exact h h'

/-- Nothing else is lowered to a character that is no letter. -/
theorem toLower_eq {c d : Char} (hd : d.toNat < 65 ∨ 90 < d.toNat ∧ d.toNat < 97) :
    c.toLower = d ↔ c = d := by
  rw [← Char.toNat_inj, ← Char.toNat_inj, toNat_toLower]
  split
  · omega
  · exact Iff.rfl

theorem mem_map_toLower {d : Char} (hd : d.toNat < 65 ∨ 90 < d.toNat ∧ d.toNat < 97)
    (cs : List Char) : d ∈ cs.map Char.toLower ↔ d ∈ cs := by
  rw [List.mem_map]
  constructor
  · intro h
    obtain ⟨c, hc, heq⟩ := h
    rwa [← (toLower_eq hd).1 heq]
  · intro h
    exact ⟨d, h, (toLower_eq hd).2 rfl⟩

/-! ## The form of a host -/

/-- An optional port: a colon and any digits. -/
def IsPort (port : List Char) : Prop :=
  port = [] ∨ ∃ digits, port = ':' :: digits ∧ ∀ c ∈ digits, c.isDigit = true

/-- What can stand as a name: a literal in brackets, or characters without a colon. -/
inductive HostName : List Char → Prop
  | bracketed (body : List Char) (hclose : ']' ∉ body) : HostName ('[' :: body ++ [']'])
  | plain (name : List Char) (hne : name ≠ []) (hcolon : ':' ∉ name) (hopen : name.head? ≠ some '[')
      (hfirst : ∀ c ∈ name.head?, Str.isWhitespace c = false)
      (hlast : ∀ c ∈ name.getLast?, Str.isWhitespace c = false) : HostName name

/-- `value` is written as the name, an optional port and whitespace around them. -/
def HostText (value name : String) : Prop :=
  HostName name.toList ∧ ∃ before port after, value.toList = before ++ (name.toList ++ port) ++ after ∧
    (∀ c ∈ before, Str.isWhitespace c = true) ∧ IsPort port ∧ ∀ c ∈ after, Str.isWhitespace c = true

theorem isDigit_range {c : Char} (h : c.isDigit = true) : 48 ≤ c.toNat ∧ c.toNat ≤ 57 := by
  simp only [Char.isDigit, Bool.and_eq_true, decide_eq_true_eq] at h
  exact h

theorem isWhitespace_digit {c : Char} (h : c.isDigit = true) : Str.isWhitespace c = false := by
  obtain ⟨h1, h2⟩ := isDigit_range h
  simp only [Str.isWhitespace, Bool.or_eq_false_iff, Bool.and_eq_false_iff, decide_eq_false_iff_not,
    List.contains_eq_mem, List.mem_cons, List.not_mem_nil, or_false]
  omega

/-- A port ends with no whitespace, so trimming leaves it. -/
theorem isWhitespace_last_port {port : List Char} (h : IsPort port) {c : Char}
    (hc : c ∈ port.getLast?) : Str.isWhitespace c = false := by
  rcases h with rfl | ⟨digits, rfl, hd⟩
  · exact absurd hc (by simp)
  · rcases List.mem_cons.1 (List.mem_of_getLast? hc) with rfl | hmem
    · decide
    · exact isWhitespace_digit (hd c hmem)

/-- There is nothing to lower in a port. -/
theorem map_toLower_port {port : List Char} (h : IsPort port) : port.map Char.toLower = port := by
  have hfix : ∀ c ∈ port, c.toLower = c := by
    rcases h with rfl | ⟨digits, rfl, hd⟩
    · simp
    · intro c hc
      rw [← Char.toNat_inj, toNat_toLower]
      rcases List.mem_cons.1 hc with rfl | hc
      · decide
      · have := isDigit_range (hd c hc)
        rw [if_neg]
        omega
  exact (List.map_congr_left hfix).trans (List.map_id port)

namespace HostName

variable {name : List Char}

/-- A name starts with no whitespace. -/
theorem first (h : HostName name) : ∃ c, name.head? = some c ∧ Str.isWhitespace c = false := by
  cases h with
  | bracketed body _ => exact ⟨'[', rfl, by decide⟩
  | plain _ hne _ _ hfirst _ =>
    cases name with
    | nil => exact absurd rfl hne
    | cons c cs => exact ⟨c, rfl, hfirst c rfl⟩

/-- A name ends with no whitespace. -/
theorem last (h : HostName name) {c : Char} (hc : c ∈ name.getLast?) : Str.isWhitespace c = false := by
  cases h with
  | bracketed body _ =>
    rw [List.getLast?_concat, Option.mem_some_iff] at hc
    rw [← hc]
    decide
  | plain _ _ _ _ _ hlast => exact hlast c hc

end HostName

/-! ## Normalising -/

/-- Trimming removes the whitespace around, and no more. -/
theorem trim_around {before core after : List Char} (hb : ∀ c ∈ before, Str.isWhitespace c = true)
    (ha : ∀ c ∈ after, Str.isWhitespace c = true) (hne : core ≠ [])
    (hfirst : ∀ c ∈ core.head?, Str.isWhitespace c = false)
    (hlast : ∀ c ∈ core.getLast?, Str.isWhitespace c = false) :
    ((before ++ core ++ after).dropWhile Str.isWhitespace).rdropWhile Str.isWhitespace = core := by
  have hdrop : (before ++ core ++ after).dropWhile Str.isWhitespace = core ++ after := by
    rw [List.append_assoc, List.dropWhile_append_of_pos hb]
    cases core with
    | nil => exact absurd rfl hne
    | cons c cs =>
      rw [List.cons_append, List.dropWhile_cons_of_neg]
      rw [hfirst c rfl]
      exact Bool.false_ne_true
  rw [hdrop, List.rdropWhile, List.reverse_append,
    List.dropWhile_append_of_pos (by simpa using ha), ← List.rdropWhile, List.rdropWhile_eq_self_iff]
  intro hl
  rw [hlast _ (List.getLast?_eq_some_getLast hl)]
  exact Bool.false_ne_true

/-- Trimming leaves the name and the port. -/
theorem trim_hostText {value name : String} {before port after : List Char}
    (hv : value.toList = before ++ (name.toList ++ port) ++ after) (hname : HostName name.toList)
    (hb : ∀ c ∈ before, Str.isWhitespace c = true) (hport : IsPort port)
    (ha : ∀ c ∈ after, Str.isWhitespace c = true) :
    (Str.trim value).toList = name.toList ++ port := by
  obtain ⟨first, hfirst, hws⟩ := hname.first
  have hne : name.toList ≠ [] := by
    intro hnil
    rw [hnil] at hfirst
    exact absurd hfirst (by simp)
  rw [Str.trim, hv, String.toList_ofList]
  refine trim_around hb ha (List.append_ne_nil_of_left_ne_nil hne port) ?_ ?_
  · intro c hc
    rw [List.head?_append, hfirst, Option.some_or, Option.mem_some_iff] at hc
    rwa [← hc]
  · intro c hc
    rw [List.getLast?_append] at hc
    cases hp : port.getLast? with
    | none =>
      rw [hp, Option.none_or] at hc
      exact hname.last hc
    | some d =>
      rw [hp, Option.some_or] at hc
      exact isWhitespace_last_port hport (hp.trans hc)

/-- **The normal form of a host is its name in lower case.** -/
theorem normalizeHost_eq {value name : String} (h : HostText value name) :
    normalizeHost value = Str.toAsciiLowercase name := by
  obtain ⟨hname, before, port, after, hv, hb, hport, ha⟩ := h
  have htrim := trim_hostText hv hname hb hport ha
  have hlower : (Str.toAsciiLowercase (Str.trim value)).toList =
      name.toList.map Char.toLower ++ port := by
    rw [Str.toAsciiLowercase, String.toList_ofList, htrim, List.map_append, map_toLower_port hport]
  unfold normalizeHost
  simp only [hlower]
  rw [Str.toAsciiLowercase]
  generalize name.toList = cs at hname
  cases hname with
  | bracketed body hclose =>
    -- the search for `]` finds the last character of the name
    have hbody : ∀ c ∈ '[' :: body.map Char.toLower, decide (c ≠ ']') = true := by
      intro c hc
      rw [decide_eq_true_eq]
      intro hcl
      rw [hcl] at hc
      rcases List.mem_cons.1 hc with h | h
      · exact absurd h (by decide)
      · exact hclose ((mem_map_toLower (Or.inr (by decide)) body).1 h)
    have hmap : ('[' :: body ++ [']']).map Char.toLower ++ port =
        ('[' :: body.map Char.toLower) ++ (']' :: port) := by
      rw [List.map_append, List.append_assoc]
      rfl
    rw [hmap, if_pos ⟨rfl, by simp⟩, List.takeWhile_append_of_pos hbody,
      List.takeWhile_cons_of_neg (by simp), List.append_nil, List.map_append]
    rfl
  | plain _ hne hcolon hopen _ _ =>
    have hhead : (cs.map Char.toLower ++ port).head? ≠ some '[' := by
      cases cs with
      | nil => exact absurd rfl hne
      | cons c cs =>
        intro hc
        have hc' : c.toLower = '[' := Option.some.inj hc
        exact hopen (congrArg some ((toLower_eq (Or.inr (by decide))).1 hc'))
    have hname : ∀ c ∈ cs.map Char.toLower, decide (c ≠ ':') = true := by
      intro c hc
      rw [decide_eq_true_eq]
      intro hcl
      rw [hcl] at hc
      exact hcolon ((mem_map_toLower (Or.inl (by decide)) cs).1 hc)
    have hend : port.takeWhile (fun c => decide (c ≠ ':')) = [] := by
      rcases hport with rfl | ⟨digits, rfl, _⟩
      · rfl
      · exact List.takeWhile_cons_of_neg (by simp)
    rw [if_neg (fun h => hhead h.1), List.takeWhile_append_of_pos hname, hend, List.append_nil]

/-! ## Matching -/

/-- Two hosts that are given match iff their names agree. -/
theorem matchesHost_text {routeHost requestHost routeName requestName : String}
    (hroute : HostText routeHost routeName) (hrequest : HostText requestHost requestName) :
    matchesHost (some routeHost) (some requestHost) = true ↔
      Str.toAsciiLowercase routeName = Str.toAsciiLowercase requestName := by
  simp only [matchesHost, beq_iff_eq]
  rw [normalizeHost_eq hroute, normalizeHost_eq hrequest]

/-- **The host condition is equality of names** up to the case of ASCII letters. A route
with a host takes a request that its path and methods take iff the names agree, and never
one without a host; a route without a host is not constrained. -/
theorem matchesHost_names (route : Route) (path method : String) :
    (∀ routeHost requestHost routeName requestName, HostText routeHost routeName →
      HostText requestHost requestName →
      (matchesHost (some routeHost) (some requestHost) = true ↔
        Str.toAsciiLowercase routeName = Str.toAsciiLowercase requestName)) ∧
    (∀ routeHost requestHost routeName requestName, HostText routeHost routeName →
      HostText requestHost requestName → route.host = some routeHost →
      (matchesRoute route path method (some requestHost) = true ↔
        matchesRoute { route with host := none } path method (some requestHost) = true ∧
          Str.toAsciiLowercase routeName = Str.toAsciiLowercase requestName)) ∧
    (route.host ≠ none → matchesRoute route path method none = false) ∧
    (route.host = none → ∀ host host',
      matchesRoute route path method host = matchesRoute route path method host') := by
  refine ⟨fun _ _ _ _ => matchesHost_text, ?_, ?_, ?_⟩
  · intro routeHost requestHost routeName requestName hroute hrequest hhost
    rw [← matchesHost_text hroute hrequest, matchesRoute, matchesRoute, hhost]
    simp only [matchesHost, Bool.and_true, Bool.and_eq_true]
  · intro hsome
    obtain ⟨routeHost, hhost⟩ := Option.ne_none_iff_exists'.1 hsome
    simp only [matchesRoute, hhost, matchesHost, Bool.and_false]
  · intro hnone host host'
    simp only [matchesRoute, hnone, matchesHost]

namespace Sample

def loopback : Route := .new "loopback" none [] (some "[::A]") []

theorem loopback_text : HostText "[::A]" "[::A]" :=
  ⟨.bracketed [':', ':', 'A'] (by decide), [], [], [], rfl, by simp, Or.inl rfl, by simp⟩

theorem request_text : HostText " [::a]:80 " "[::a]" :=
  ⟨.bracketed [':', ':', 'a'] (by decide), [' '], [':', '8', '0'], [' '], rfl,
    List.forall_mem_singleton.2 rfl,
    Or.inr ⟨['8', '0'], rfl, List.forall_mem_cons.2 ⟨rfl, List.forall_mem_singleton.2 rfl⟩⟩,
    List.forall_mem_singleton.2 rfl⟩

end Sample

theorem matchesHost_names_loopback :
    matchesHost (some "[::A]") (some " [::a]:80 ") = true ∧
      matchesRoute Sample.loopback "/" "GET" (some " [::a]:80 ") = true ∧
      matchesRoute Sample.loopback "/" "GET" none = false := by
  obtain ⟨hhost, hroute, hnone, -⟩ := matchesHost_names Sample.loopback "/" "GET"
  have hsome : Sample.loopback.host = some "[::A]" := rfl
  have hname : Str.toAsciiLowercase "[::A]" = Str.toAsciiLowercase "[::a]" := by decide
  refine ⟨(hhost _ _ _ _ Sample.loopback_text Sample.request_text).2 hname,
    (hroute _ _ _ _ Sample.loopback_text Sample.request_text hsome).2 ⟨rfl, hname⟩, hnone ?_⟩
  rw [hsome]
  exact Option.some_ne_none _

end Yali
