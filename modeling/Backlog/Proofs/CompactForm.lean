import Backlog.Proofs.Documents
import Backlog.Proofs.FilterGrammar

/-!
# The compact form reads back

A value that is *exact* has nothing a reader would give in another way: its integers fit 64 bits, it
has no floating-point numbers, and the members of its objects stand in key order. Its compact text
is cut into tokens one value after the other, the machine makes of them a document, and the document
has that value. Only the depth stands in the way: a document is as deep as the value, and readers
refuse what is deeper than they go.

What is shown of a text is shown of one in front of anything that may follow a value. So the parts
of a container are read one by one, and there is one lemma for each kind of container.

## Main results

* `Json.exists_reads` — the text of an exact value is read as a document with that value;
* `Json.read?_write` — so it is read as that value, unless it is too deep.
-/

namespace Backlog

namespace Json

-- ---------------------------------------------------------------------------
-- Tokens of what is written
-- ---------------------------------------------------------------------------

/-- What may stand behind a value: nothing, a comma or a closing bracket. -/
def Follows (rest : List Char) : Prop := ∀ c, rest.head? = some c → c = ',' ∨ c = ']' ∨ c = '}'

theorem follows_nil : Follows [] := by simp [Follows]

theorem follows_cons {c : Char} (rest : List Char) (h : c = ',' ∨ c = ']' ∨ c = '}') :
    Follows (c :: rest) := fun _ hd => Option.some.inj hd ▸ h

theorem head?_toDigits {n : Nat} (h : (Nat.toDigits 10 n).head? = some '0') : n = 0 := by
  induction n using Nat.strongRecOn with
  | ind n ih =>
    by_cases hn : n < 10
    · rw [Nat.toDigits_of_lt_base hn] at h
      have hall : ∀ k, k < 10 → k.digitChar = '0' → k = 0 := by decide
      exact hall n hn (Option.some.inj h)
    · rw [Nat.toDigits_of_base_le (by decide) (by omega)] at h
      have hfront : (Nat.toDigits 10 (n / 10)).head? = some '0' := by
        cases hds : Nat.toDigits 10 (n / 10) with
        | nil => exact absurd hds Nat.toDigits_ne_nil
        | cons d ds => simpa [hds] using h
      have := ih (n / 10) (by omega) hfront
      omega

/-- Digits are taken up to what follows them. -/
theorem scanDigits?_append {ds rest : List Char} (hne : ds ≠ [])
    (hds : ∀ c ∈ ds, c.isDigit = true) (h : Follows rest) :
    scanDigits? (ds ++ rest) = some (ds, rest) := by
  have htake : (ds ++ rest).takeWhile Char.isDigit = ds := by
    rw [List.takeWhile_append_of_pos hds]
    cases rest with
    | nil => simp
    | cons c rest =>
      have hc : c.isDigit = false := by
        rcases h c rfl with rfl | rfl | rfl <;> decide
      rw [List.takeWhile_cons_of_neg (by simp [hc]), List.append_nil]
  have hdrop : (ds ++ rest).dropWhile Char.isDigit = rest := by
    have hwhole := List.takeWhile_append_dropWhile (p := Char.isDigit) (l := ds ++ rest)
    rw [htake] at hwhole
    exact List.append_cancel_left hwhole
  unfold scanDigits?
  rw [htake, hdrop]
  cases ds with
  | nil => exact absurd rfl hne
  | cons d ds => rfl

/-- Nothing that follows a value is a part of a numeral. -/
theorem scanUnsigned?_toDigits (negative : Bool) (n : Nat) {rest : List Char} (h : Follows rest) :
    scanUnsigned? negative (Nat.toDigits 10 n ++ rest) =
      some (⟨negative, Nat.toDigits 10 n, none, none⟩, rest) := by
  have hdigits : scanDigits? (Nat.toDigits 10 n ++ rest) = some (Nat.toDigits 10 n, rest) :=
    scanDigits?_append Nat.toDigits_ne_nil
      (fun c hc => Nat.isDigit_of_mem_toDigits (by decide) (by decide) hc) h
  have hzero : ¬ ((Nat.toDigits 10 n).head? = some '0' ∧ Nat.toDigits 10 n ≠ ['0']) := by
    rintro ⟨hhead, hne⟩
    rw [head?_toDigits hhead] at hne
    exact hne rfl
  have hfraction : scanFraction? rest = some (none, rest) := by
    unfold scanFraction?
    split
    · exact absurd (h '.' rfl) (by decide)
    · rfl
  have hexponent : scanExponent? rest = some (none, rest) := by
    unfold scanExponent?
    split
    · exact absurd (h 'e' rfl) (by decide)
    · exact absurd (h 'E' rfl) (by decide)
    · rfl
  simp only [scanUnsigned?, hdigits, if_neg hzero, hfraction, hexponent]

theorem scanNumeral?_decimalChars (n : Int) {rest : List Char} (h : Follows rest) :
    scanNumeral? (Text.decimalChars n ++ rest) = some (.ofInt n, rest) := by
  unfold Text.decimalChars
  by_cases hn : n < 0
  · rw [if_pos hn, List.cons_append, scanNumeral?, scanUnsigned?_toDigits true _ h, Numeral.ofInt,
      decide_eq_true hn]
  · rw [if_neg hn, Numeral.ofInt, decide_eq_false hn, ← scanUnsigned?_toDigits false _ h]
    unfold scanNumeral?
    split
    · next rest' hminus =>
      -- the digits do not begin with a sign
      have hmem : '-' ∈ Nat.toDigits 10 n.natAbs := by
        cases hds : Nat.toDigits 10 n.natAbs with
        | nil => exact absurd hds Nat.toDigits_ne_nil
        | cons d ds =>
          rw [hds, List.cons_append] at hminus
          exact (List.cons.inj hminus).1 ▸ List.mem_cons_self
      have hdigit := Nat.isDigit_of_mem_toDigits (by decide) (by decide) hmem
      exact absurd hdigit (by decide)
    · rfl

/-- Whether a numeral may begin with a character. -/
def beginsNumeral (c : Char) : Bool := c.isDigit || c == '-'

theorem ne_of_beginsNumeral {c : Char} (h : beginsNumeral c = true) (d : Char)
    (hd : beginsNumeral d = false) : c ≠ d := by
  rintro rfl
  exact absurd h (by simp [hd])

theorem token?_numeral {c : Char} (rest : List Char) (h : beginsNumeral c = true) :
    token? c rest = tokenOf .number (scanNumeral? (c :: rest)) := by
  unfold token?
  simp only [ne_of_beginsNumeral h '{' rfl, ne_of_beginsNumeral h '}' rfl,
    ne_of_beginsNumeral h '[' rfl, ne_of_beginsNumeral h ']' rfl,
    ne_of_beginsNumeral h ',' rfl, ne_of_beginsNumeral h ':' rfl,
    ne_of_beginsNumeral h '"' rfl, ne_of_beginsNumeral h 'n' rfl,
    ne_of_beginsNumeral h 't' rfl, ne_of_beginsNumeral h 'f' rfl, if_false]

theorem exists_decimalChars (n : Int) :
    ∃ c cs, Text.decimalChars n = c :: cs ∧ beginsNumeral c = true := by
  unfold Text.decimalChars
  split
  · exact ⟨'-', _, rfl, rfl⟩
  · cases hds : Nat.toDigits 10 n.natAbs with
    | nil => exact absurd hds Nat.toDigits_ne_nil
    | cons d ds =>
      have hdigit : d.isDigit = true :=
        Nat.isDigit_of_mem_toDigits (by decide) (by decide) (hds ▸ List.mem_cons_self)
      exact ⟨d, ds, rfl, by simp [beginsNumeral, hdigit]⟩

/-- An integer is one token. -/
theorem tokens_decimalChars (n : Int) {rest : List Char} (h : Follows rest) :
    tokens (Text.decimalChars n ++ rest) = (tokens rest).map (.number (.ofInt n) :: ·) := by
  have hscan := scanNumeral?_decimalChars n h
  obtain ⟨c, cs, hchars, hc⟩ := exists_decimalChars n
  have hspace : isSpace c = false := by
    simp [isSpace, ne_of_beginsNumeral hc ' ' rfl, ne_of_beginsNumeral hc '\t' rfl,
      ne_of_beginsNumeral hc '\n' rfl, ne_of_beginsNumeral hc '\r' rfl]
  rw [hchars, List.cons_append] at hscan ⊢
  refine tokens_cons_of_token? hspace ?_
  rw [token?_numeral _ hc, hscan]
  rfl

/-- Characters are cut into tokens, whatever stands behind them. -/
def CutsTo (cs : List Char) (ts : List Token) : Prop :=
  ∀ rest, tokens (cs ++ rest) = (tokens rest).map (ts ++ ·)

theorem CutsTo.append {cs cs' : List Char} {ts ts' : List Token} (h : CutsTo cs ts)
    (h' : CutsTo cs' ts') : CutsTo (cs ++ cs') (ts ++ ts') := by
  intro rest
  rw [List.append_assoc, h, h', Option.map_map]
  simp only [Function.comp_def, List.append_assoc]

/-- A text in quotes is one token. -/
theorem cutsTo_quoted (s : String) : CutsTo (quoted s) [.string (.ofChars s.toList)] := by
  intro rest
  have hscan := Literal.scan_quote s.toList rest
  rw [quoted, List.append_assoc, List.cons_append]
  refine tokens_cons_of_token? rfl ?_
  show tokenOf .string (Literal.scan (Literal.quote s.toList ++ '"' :: rest)) = _
  rw [hscan]
  rfl

/-- The characters that are tokens of their own. -/
def marks : List (Char × Token) :=
  [('{', .openObject), ('}', .closeObject), ('[', .openArray), (']', .closeArray), (',', .comma),
    (':', .colon)]

theorem cutsTo_mark {c : Char} {t : Token} (h : (c, t) ∈ marks) : CutsTo [c] [t] := by
  intro rest
  simp only [marks, List.mem_cons, Prod.mk.injEq, List.not_mem_nil, or_false] at h
  rcases h with ⟨rfl, rfl⟩ | ⟨rfl, rfl⟩ | ⟨rfl, rfl⟩ | ⟨rfl, rfl⟩ | ⟨rfl, rfl⟩ | ⟨rfl, rfl⟩ <;>
    exact tokens_cons_of_token? rfl rfl

/-- A word is one token. -/
theorem cutsTo_word {j : Json} {t : Token}
    (h : (j, t) ∈ [(Json.null, Token.null), (.bool true, .bool true), (.bool false, .bool false)]) :
    CutsTo (chars j) [t] := by
  intro rest
  simp only [List.mem_cons, Prod.mk.injEq, List.not_mem_nil, or_false] at h
  rcases h with ⟨rfl, rfl⟩ | ⟨rfl, rfl⟩ | ⟨rfl, rfl⟩ <;>
    exact tokens_cons_of_token? rfl rfl

-- ---------------------------------------------------------------------------
-- Documents of what is written
-- ---------------------------------------------------------------------------

/-- A value as readers give it: integers of 64 bits, no floating-point numbers, and the members of
every object in key order. -/
inductive IsExact : Json → Prop
  | null : IsExact .null
  | bool (b : Bool) : IsExact (.bool b)
  | integer {n : Int} (low : -9223372036854775808 ≤ n) (high : n < 18446744073709551616) :
      IsExact (.number (.integer n))
  | string (s : String) : IsExact (.string s)
  | array {items : List Json} (h : ∀ j ∈ items, IsExact j) : IsExact (.array items)
  | object {m : SortedMap String Json} (h : ∀ e ∈ m.entries, IsExact e.2) :
      IsExact (.object m.entries)

theorem run_cons (s : State) (t : Token) (ts : List Token) :
    run s (t :: ts) = (step s t).bind fun s' => run s' ts := by
  rw [run]
  cases step s t <;> rfl

/-- The text of a value is cut into tokens in front of anything that may follow it. The machine
makes of them a document, wherever a value may start. The document has the value and its depth. -/
structure Reads (j : Json) (ts : List Token) (t : Tree) : Prop where
  cut : ∀ rest, Follows rest → tokens (chars j ++ rest) = (tokens rest).map (ts ++ ·)
  made : ∀ stack, run (.reading stack .value) ts = deliver t stack
  value : t.value? = some j
  depth : t.depth = j.depth

/-- The same of items and the bracket that closes them, where the machine wants items. -/
structure ReadsItems (want : Want) (items : List Json) (ts : List Token) (trees : List Tree) :
    Prop where
  cut : CutsTo (itemChars items) ts
  made : ∀ done stack, run (.reading (.items done :: stack) want) ts =
    deliver (.array (done.reverse ++ trees)) stack
  value : Tree.values? trees = some items
  depth : Tree.depthItems trees = depthItems items

/-- The same of members and the bracket that closes them, where the machine wants members. -/
structure ReadsMembers (want : Want) (members : List (String × Json)) (ts : List Token)
    (trees : List (Literal × Tree)) : Prop where
  cut : CutsTo (memberChars members) ts
  made : ∀ done stack, run (.reading (.members done :: stack) want) ts =
    deliver (.object (done.reverse ++ trees)) stack
  value : Tree.entries? trees = some members
  depth : Tree.depthMembers trees = depthMembers members

section

variable {j : Json} {ts : List Token} {t : Tree}

/-- A value of one token. -/
theorem Reads.of_token {token : Token} (hcut : CutsTo (chars j) [token])
    (hmade : ∀ stack, startValue stack token = deliver t stack) (hvalue : t.value? = some j)
    (hdepth : t.depth = j.depth) : Reads j [token] t where
  cut rest _ := hcut rest
  made stack := by
    rw [run_cons, step, hmade]
    exact Option.bind_fun_some _
  value := hvalue
  depth := hdepth

/-- A value and the mark behind it. -/
theorem Reads.cutsTo_mark (h : Reads j ts t) {c : Char} {token : Token} (hmark : (c, token) ∈ marks)
    (hc : c = ',' ∨ c = ']' ∨ c = '}') : CutsTo (chars j ++ [c]) (ts ++ [token]) := by
  intro rest
  rw [List.append_assoc, h.cut ([c] ++ rest) (follows_cons rest hc), Json.cutsTo_mark hmark,
    Option.map_map]
  simp only [Function.comp_def, List.append_assoc]

/-- A list of one item. -/
theorem ReadsItems.single (h : Reads j ts t) : ReadsItems .value [j] (ts ++ [.closeArray]) [t] where
  cut := h.cutsTo_mark (by simp [marks]) (by simp)
  made done stack := by
    rw [run_append, h.made, deliver, Option.bind_some, run_cons]
    show (deliver (.array (t :: done).reverse) stack).bind some = _
    rw [Option.bind_fun_some, List.reverse_cons]
  value := by simp [Tree.values?, h.value]
  depth := by simp [Tree.depthItems, depthItems, h.depth]

/-- A list of an item and more of them. -/
theorem ReadsItems.cons (h : Reads j ts t) {items : List Json} {ts' : List Token}
    {trees : List Tree} (hne : items ≠ []) (hrest : ReadsItems .value items ts' trees) :
    ReadsItems .value (j :: items) (ts ++ [.comma] ++ ts') (t :: trees) where
  cut := by
    have hchars : itemChars (j :: items) = chars j ++ [','] ++ itemChars items := by
      rw [itemChars, List.append_assoc]
      · rfl
      · exact hne
    rw [hchars]
    exact (h.cutsTo_mark (by simp [marks]) (by simp)).append hrest.cut
  made done stack := by
    rw [List.append_assoc, run_append, h.made, deliver, Option.bind_some, List.singleton_append,
      run_cons]
    show run (.reading (.items (t :: done) :: stack) .value) ts' = _
    rw [hrest.made, List.reverse_cons, List.append_assoc, List.singleton_append]
  value := by simp [Tree.values?, h.value, hrest.value]
  depth := by simp [Tree.depthItems, depthItems, h.depth, hrest.depth]

/-- An object of one member. -/
theorem ReadsMembers.single (name : String) (h : Reads j ts t) :
    ReadsMembers .key [(name, j)]
      ([.string (.ofChars name.toList), .colon] ++ (ts ++ [.closeObject]))
      [(.ofChars name.toList, t)] where
  cut := by
    have hchars : memberChars [(name, j)] = (quoted name ++ [':']) ++ (chars j ++ ['}']) := by
      simp [memberChars]
    rw [hchars]
    exact ((cutsTo_quoted name).append (Json.cutsTo_mark (by simp [marks]))).append
      (h.cutsTo_mark (by simp [marks]) (by simp))
  made done stack := by
    rw [run_append]
    show (run (.reading (.member done (.ofChars name.toList) :: stack) .value) _) = _
    rw [run_append, h.made, deliver, Option.bind_some, run_cons]
    show (deliver (.object ((_, t) :: done).reverse) stack).bind some = _
    rw [Option.bind_fun_some, List.reverse_cons]
  value := by simp [Tree.entries?, h.value, Document.text?_ofChars]
  depth := by simp [Tree.depthMembers, depthMembers, h.depth]

/-- An object of a member and more of them. -/
theorem ReadsMembers.cons (name : String) (h : Reads j ts t) {members : List (String × Json)}
    {ts' : List Token} {trees : List (Literal × Tree)} (hne : members ≠ [])
    (hrest : ReadsMembers .key members ts' trees) :
    ReadsMembers .key ((name, j) :: members)
      ([.string (.ofChars name.toList), .colon] ++ (ts ++ [.comma] ++ ts'))
      ((.ofChars name.toList, t) :: trees) where
  cut := by
    have hchars : memberChars ((name, j) :: members) =
        (quoted name ++ [':']) ++ (chars j ++ [','] ++ memberChars members) := by
      rw [memberChars]
      · simp
      · exact hne
    rw [hchars]
    exact ((cutsTo_quoted name).append (Json.cutsTo_mark (by simp [marks]))).append
      ((h.cutsTo_mark (by simp [marks]) (by simp)).append hrest.cut)
  made done stack := by
    rw [run_append]
    show (run (.reading (.member done (.ofChars name.toList) :: stack) .value) _) = _
    rw [List.append_assoc, run_append, h.made, deliver, Option.bind_some, List.singleton_append,
      run_cons]
    show run (.reading (.members ((_, t) :: done) :: stack) .key) ts' = _
    rw [hrest.made, List.reverse_cons, List.append_assoc, List.singleton_append]
  value := by simp [Tree.entries?, h.value, hrest.value, Document.text?_ofChars]
  depth := by simp [Tree.depthMembers, depthMembers, h.depth, hrest.depth]

/-- Behind an opening bracket items start as they do behind a comma. -/
theorem ReadsItems.opened {items : List Json} {trees : List Tree}
    (h : ReadsItems .value items ts trees) : ReadsItems .valueOrClose items ts trees where
  cut := h.cut
  made done stack := by
    rw [← h.made]
    have hmade := h.made [] []
    cases ts with
    | nil => simp [run, deliver] at hmade
    | cons token ts =>
      have hne : token ≠ .closeArray := by
        rintro rfl
        simp [run, step, startValue, deliver] at hmade
      simp only [run_cons, step, if_neg hne]
  value := h.value
  depth := h.depth

/-- Behind an opening bracket members start as they do behind a comma. -/
theorem ReadsMembers.opened {members : List (String × Json)} {trees : List (Literal × Tree)}
    (h : ReadsMembers .key members ts trees) : ReadsMembers .keyOrClose members ts trees where
  cut := h.cut
  made done stack := by
    rw [← h.made]
    have hmade := h.made [] []
    cases ts with
    | nil => simp [run, deliver] at hmade
    | cons token ts =>
      have hne : token ≠ .closeObject := by
        rintro rfl
        simp [run, step, startMember, deliver] at hmade
      simp only [run_cons, step, if_neg hne]
  value := h.value
  depth := h.depth

/-- Behind an opening bracket there may be no item at all. -/
theorem ReadsItems.nil : ReadsItems .valueOrClose [] [.closeArray] [] where
  cut := cutsTo_mark (by simp [marks])
  made done stack := by
    rw [run_cons, List.append_nil]
    exact Option.bind_fun_some _
  value := rfl
  depth := rfl

/-- Behind an opening bracket there may be no member at all. -/
theorem ReadsMembers.nil : ReadsMembers .keyOrClose [] [.closeObject] [] where
  cut := cutsTo_mark (by simp [marks])
  made done stack := by
    rw [run_cons, List.append_nil]
    exact Option.bind_fun_some _
  value := rfl
  depth := rfl

/-- Items are read if each of them is. -/
theorem exists_readsItems {items : List Json} (h : ∀ j ∈ items, ∃ ts t, Reads j ts t) :
    ∃ ts trees, ReadsItems .valueOrClose items ts trees := by
  have hsome : items ≠ [] → ∃ ts trees, ReadsItems .value items ts trees := by
    intro hne
    induction items with
    | nil => exact absurd rfl hne
    | cons j rest ih =>
      obtain ⟨ts, t, hj⟩ := h j List.mem_cons_self
      by_cases hrest : rest = []
      · exact hrest ▸ ⟨_, _, .single hj⟩
      · obtain ⟨ts', trees, hitems⟩ := ih (fun k hk => h k (List.mem_cons_of_mem j hk)) hrest
        exact ⟨_, _, .cons hj hrest hitems⟩
  by_cases hne : items = []
  · exact hne ▸ ⟨_, _, .nil⟩
  · obtain ⟨ts, trees, hitems⟩ := hsome hne
    exact ⟨ts, trees, hitems.opened⟩

/-- Members are read if the value of each of them is. -/
theorem exists_readsMembers {members : List (String × Json)}
    (h : ∀ e ∈ members, ∃ ts t, Reads e.2 ts t) :
    ∃ ts trees, ReadsMembers .keyOrClose members ts trees := by
  have hsome : members ≠ [] → ∃ ts trees, ReadsMembers .key members ts trees := by
    intro hne
    induction members with
    | nil => exact absurd rfl hne
    | cons e rest ih =>
      obtain ⟨ts, t, hj⟩ := h e List.mem_cons_self
      by_cases hrest : rest = []
      · exact hrest ▸ ⟨_, _, .single e.1 hj⟩
      · obtain ⟨ts', trees, hmembers⟩ := ih (fun k hk => h k (List.mem_cons_of_mem e hk)) hrest
        exact ⟨_, _, .cons e.1 hj hrest hmembers⟩
  by_cases hne : members = []
  · exact hne ▸ ⟨_, _, .nil⟩
  · obtain ⟨ts, trees, hmembers⟩ := hsome hne
    exact ⟨ts, trees, hmembers.opened⟩

/-- The text of an exact value is read as a document with that value. -/
theorem exists_reads (h : IsExact j) : ∃ ts t, Reads j ts t := by
  induction h with
  | null =>
    exact ⟨[.null], .null, .of_token (cutsTo_word (by simp)) (fun _ => rfl) rfl rfl⟩
  | bool b =>
    refine ⟨[.bool b], .bool b, .of_token (cutsTo_word ?_) (fun _ => rfl) rfl rfl⟩
    cases b <;> simp
  | @integer n low high =>
    refine ⟨[.number (.ofInt n)], .number (.ofInt n), fun rest hrest => ?_, fun stack => ?_, ?_,
      rfl⟩
    · rw [chars, numberText, Text.decimal, String.toList_ofList]
      exact tokens_decimalChars n hrest
    · rw [run_cons, step]
      exact Option.bind_fun_some _
    · rw [Tree.value?, Numeral.number?_ofInt low high]
      rfl
  | string s =>
    refine ⟨[.string (.ofChars s.toList)], .string (.ofChars s.toList),
      .of_token ?_ (fun _ => rfl) ?_ rfl⟩
    · rw [write_string]
      exact cutsTo_quoted s
    · rw [Tree.value?, Document.text?_ofChars]
      rfl
  | @array items h ih =>
    obtain ⟨ts, trees, hitems⟩ := exists_readsItems ih
    refine ⟨.openArray :: ts, .array trees, fun rest _ => ?_, fun stack => ?_, ?_, ?_⟩
    · rw [write_array]
      exact ((cutsTo_mark (c := '[') (by simp [marks])).append hitems.cut) rest
    · rw [run_cons]
      exact hitems.made [] stack
    · rw [Tree.value?, hitems.value]
      rfl
    · rw [Tree.depth, depth_array, hitems.depth]
  | @object m h ih =>
    obtain ⟨ts, trees, hmembers⟩ := exists_readsMembers ih
    refine ⟨.openObject :: ts, .object trees, fun rest _ => ?_, fun stack => ?_, ?_, ?_⟩
    · rw [write_object]
      exact ((cutsTo_mark (c := '{') (by simp [marks])).append hmembers.cut) rest
    · rw [run_cons]
      exact hmembers.made [] stack
    · -- members in key order are listed as they were written
      rw [Tree.value?, hmembers.value, Option.map_some, SortedMap.ofList_entries]
      rfl
    · rw [Tree.depth, depth_object, hmembers.depth]

/-- **An exact value is read back from its text**, unless it is deeper than readers go. -/
theorem read?_write (h : IsExact j) :
    read? j.write = if j.depth ≤ greatestDepth then some j else none := by
  obtain ⟨ts, t, hj⟩ := exists_reads h
  have htokens : tokens j.write.toList = some ts := by
    have hcut := hj.cut [] follows_nil
    rwa [List.append_nil, tokens_nil, Option.map_some, List.append_nil, ← toList_write] at hcut
  have htree : Tree.read? j.write = some t := by
    rw [Tree.read?, htokens, Option.bind_some, ofTokens?, hj.made]
    rfl
  rw [read?, htree]
  simp only [hj.depth, hj.value]

end

end Json

end Backlog
