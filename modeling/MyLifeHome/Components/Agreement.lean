import MyLifeHome.Components.Messages
import MyLifeHome.Core.Wiring

/-!
# The proxy of the core and the component in C

The core checks an action on its own object, writes the arguments into a message and sends
it; the component cuts the message into words and reads each of them again. The two agree
when the words spell the arguments, and what the component reads is what the core would
accept as long as its numbers fit into an `int`.
-/
namespace MyLifeHome.Components

open Process

variable {p q : Process} {r : ObjRef} {channels : List String} {name : String}
  {args : List JsValue} {w : Nat} {c : Container} {type : NetType} {types : List NetType}
  {values : List NetValue} {x : List Char} {xs : List (List Char)} {a : JsValue} {k : Int}

/-! ## The proxy -/

/-- A remote object whose actions nothing but `publishRemote` listens to. -/
structure Proxy (p : Process) (r : ObjRef) (channels : List String) : Prop where
  silent : ∀ name, p.listenersOf r (.actionOf name) = []
  action : p.listenersOf r .action = [.remoteAction r channels]
  online : p.online = true

/-- A new object becomes one when it is published. -/
theorem proxy_publishRemote (p : Process) (o : NetObject) (channels : List String) :
    Proxy (((p.alloc o).publishRemote p.allocated channels).1.setOnline true) p.allocated
      channels where
  silent name := by
    simp [listenersOf, setOnline, publishRemote_listeners, on, alloc]
  action := by
    simp [listenersOf, setOnline, publishRemote_listeners, on, alloc]
  online := by
    simp [Process.online, setOnline, publishRemote, addObject, on]

theorem completes_emit_iff {e : Emission} : Completes [.emit r e] p q ↔
    Completes ((p.listenersOf r e.event).map fun l => .listener l e) p q := by
  constructor
  · intro h
    obtain ⟨u, new, hstep, hnew⟩ := Cascade.exec_single_iff.mp h
    obtain ⟨rfl, rfl⟩ := step_emit_iff.mp hstep
    exact hnew
  · intro h
    exact .single (step_emit_iff.mpr ⟨rfl, rfl⟩) h

/-- An action that passes the checks is said on the first channel. -/
theorem Proxy.completes_iff (hp : Proxy p r channels) :
    Completes [.executeAction r name args] p q ↔
      (p.objects r).checkAction name args = .ok () ∧ q = p.log (.say (channels.headD "undefined")
        (actionMessage (p.objects r).id name args)) := by
  have hsend : p.send channels (actionMessage (p.objects r).id name args) =
      p.log (.say (channels.headD "undefined") (actionMessage (p.objects r).id name args)) := by
    rw [Process.send, hp.online, if_pos rfl]
  have hstep : step p (.listener (.remoteAction r channels) (.action name args)) =
      .ok (p.send channels (actionMessage (p.objects r).id name args), []) :=
    step_remoteAction_iff.mpr ⟨rfl, .inl ⟨name, args, rfl, rfl⟩⟩
  have hsilent : Completes [.emit r (.actionOf name args)] p p := by
    refine completes_emit_iff.mpr ?_
    rw [Emission.event, hp.silent]
    exact .nil p
  have hsaid : Completes [.emit r (.action name args)] p
      (p.send channels (actionMessage (p.objects r).id name args)) := by
    refine completes_emit_iff.mpr ?_
    rw [Emission.event, hp.action]
    exact .single hstep (.nil _)
  rw [← hsend]
  constructor
  · intro h
    obtain ⟨u, new, hcall, hnew⟩ := Cascade.exec_single_iff.mp h
    obtain ⟨hc, rfl, rfl⟩ := step_executeAction_iff.mp hcall
    exact ⟨hc, hnew.deterministic (hsilent.append hsaid)⟩
  · rintro ⟨hc, rfl⟩
    exact .single (step_executeAction_iff.mpr ⟨hc, rfl, rfl⟩) (hsilent.append hsaid)

/-- The words of the message. -/
theorem words_actionMessage (id name : String) (args : List JsValue) :
    Text.words ' ' (actionMessage id name args).toList =
      Text.words ' ' id.toList ++ Text.words ' ' name.toList ++
        args.flatMap fun a => Text.words ' ' a.text.toList := by
  have happend : ∀ s t : String, Text.words ' ' (s ++ " " ++ t).toList =
      Text.words ' ' s.toList ++ Text.words ' ' t.toList := by
    intro s t
    simpa using Text.words_append s.toList t.toList
  have key : ∀ (args : List JsValue) (start : String),
      Text.words ' ' (args.foldl (fun msg a => msg ++ " " ++ a.text) start).toList =
        Text.words ' ' start.toList ++ args.flatMap fun a => Text.words ' ' a.text.toList := by
    intro args
    induction args with
    | nil => simp
    | cons a args ih =>
      intro start
      rw [List.foldl_cons, ih, happend, List.flatMap_cons, List.append_assoc]
  rw [actionMessage, key, happend]

/-! ## One argument -/

/-- The two sides have the same value: equal strings, or the same integer. -/
def Same : JsValue → NetValue → Prop
  | a, .enumValue s => a = .str s
  | a, .rangeValue n => parseInt a.text = some n.toInt

/-- The integer that a word consists of, from its first digit or sign on. -/
def literal (x : List Char) : Option Int :=
  match Text.readInt (x.dropWhile isSpace) with
  | some (n, []) => some n
  | _ => none

/-- `int n = l` for the `long` nearest to an integer. -/
def intOf (w : Nat) (n : Int) : CInt := Int32.ofInt (saturate w n)

/-- The word spells the argument: the string itself, or an integer within the bounds that
the core reads as well. -/
def Spells (w : Nat) : NetType → JsValue → List Char → Prop
  | .enum _, a, x => a = .str (String.ofList x)
  | .range min max, a, x => ∃ n, literal x = some n ∧ parseInt a.text = some (intOf w n).toInt ∧
      min ≤ intOf w n ∧ intOf w n ≤ max

theorem readValue_range_iff {min max : CInt} {v : NetValue} (hx : x ≠ []) :
    readValue w (.range min max) x = some v ↔ ∃ n, literal x = some n ∧
      (min ≤ intOf w n ∧ intOf w n ≤ max) ∧ v = .rangeValue (intOf w n) := by
  cases hr : Text.readInt (x.dropWhile isSpace) with
  | none =>
    have hs : strtol w x = (0, x) := by rw [strtol, hr]
    have hl : literal x = none := by rw [literal, hr]
    simp [readValue, hs, hl, hx]
  | some p =>
    obtain ⟨n, tail⟩ := p
    have hs : strtol w x = (saturate w n, tail) := by rw [strtol, hr]
    cases tail with
    | cons t ts =>
      have hl : literal x = none := by rw [literal, hr]
      simp [readValue, hs, hl]
    | nil =>
      have hl : literal x = some n := by rw [literal, hr]
      simp only [readValue, hs, hl, netTypeGetRangeMin, netTypeGetRangeMax, toInt32_toUInt32,
        Option.some.injEq, exists_eq_left', intOf, ne_eq, not_true_eq_false, if_false]
      split_ifs with hb
      · have hout : ¬(min ≤ Int32.ofInt (saturate w n) ∧ Int32.ofInt (saturate w n) ≤ max) := by
          rintro ⟨h1, h2⟩
          grind
        simp [hout]
      · have hin : min ≤ Int32.ofInt (saturate w n) ∧ Int32.ofInt (saturate w n) ≤ max := by
          grind
        simp [hin, eq_comm]

/-- Of an argument that the core has checked: a word has its value exactly when it spells it. -/
theorem spells_iff (hx : x ≠ []) (hc : checkArg a type.toNet = .ok ()) :
    (∃ v, readValue w type x = some v ∧ Same a v) ↔ Spells w type a x := by
  cases type with
  | enum names =>
    constructor
    · rintro ⟨v, hv, hsame⟩
      obtain ⟨_, rfl⟩ := readValue_enum_iff.mp hv
      exact hsame
    · intro hs
      obtain rfl : a = .str (String.ofList x) := hs
      have hne : (JsValue.str (String.ofList x)).falsy = false := by simpa using hx
      obtain ⟨s, hs, heq⟩ := (checkArg_enum hne).mp hc
      obtain rfl := JsValue.str.inj heq
      exact ⟨_, readValue_enum_iff.mpr ⟨hs, rfl⟩, rfl⟩
  | range min max =>
    constructor
    · rintro ⟨v, hv, hsame⟩
      obtain ⟨n, hn, ⟨hmin, hmax⟩, rfl⟩ := (readValue_range_iff hx).mp hv
      exact ⟨n, hn, hsame, hmin, hmax⟩
    · rintro ⟨n, hn, hsame, hmin, hmax⟩
      exact ⟨_, (readValue_range_iff hx).mpr ⟨n, hn, ⟨hmin, hmax⟩, rfl⟩, hsame⟩

/-- A literal has its value on the other side too. -/
theorem parseInt_of_literal (h : literal x = some k) : parseInt (String.ofList x) = some k := by
  have hwhite : ∀ c, isSpace c = true → isStrWhiteSpace c = true := by
    intro c hc
    have hsub : ∀ n ∈ [9, 10, 11, 12, 13, 32], n ∈ strWhiteSpace := by decide
    simp only [isSpace, List.contains_iff_mem] at hc
    simp only [isStrWhiteSpace, List.contains_iff_mem]
    exact hsub _ hc
  unfold literal at h
  split at h
  · rename_i n hr
    obtain rfl := Option.some.inj h
    obtain ⟨d, rest, hd, hdigit⟩ := Text.head_of_readInt hr
    have hnot : isStrWhiteSpace d = false := by
      obtain rfl | rfl | hdigit := hdigit
      · rfl
      · rfl
      · exact isStrWhiteSpace_of_isDigit hdigit
    have hdrop : x.dropWhile isStrWhiteSpace = x.dropWhile isSpace := by
      clear h hr
      induction x with
      | nil => rfl
      | cons b bs ih =>
        cases hb : isSpace b with
        | true => simpa [hb, hwhite b hb] using ih (by simpa [hb] using hd)
        | false =>
          obtain ⟨rfl, -⟩ : b = d ∧ bs = rest := by simpa [hb] using hd
          simp [hb, hnot]
    simp [parseInt, hdrop, hr]
  · cases h

/-- What fits into an `int` is kept. -/
theorem toInt_intOf (hw : 32 ≤ w) (hlow : -2 ^ 31 ≤ k) (hhigh : k < 2 ^ 31) :
    (intOf w k).toInt = k := by
  have hpow : (2 : Int) ^ 31 ≤ 2 ^ (w - 1) := by
    exact_mod_cast Nat.pow_le_pow_right (by decide : 0 < 2) (by omega : 31 ≤ w - 1)
  have hsat : saturate w k = k := by
    unfold saturate
    omega
  rw [intOf, hsat]
  exact Int32.toInt_ofInt_of_le hlow hhigh

/-- The number of a word fits into an `int`. -/
def Fits : NetType → List Char → Prop
  | .enum _, _ => True
  | .range _ _, x => ∀ n, literal x = some n → -2 ^ 31 ≤ n ∧ n < 2 ^ 31

/-- Of a word that the component reads: the core accepts it exactly when its number fits. -/
theorem checkArg_iff_fits (hw : 32 ≤ w) (hx : x ≠ []) {v : NetValue}
    (hv : readValue w type x = some v) :
    checkArg (.str (String.ofList x)) type.toNet = .ok () ↔ Fits type x := by
  have hne : (JsValue.str (String.ofList x)).falsy = false := by simpa using hx
  cases type with
  | enum names =>
    obtain ⟨hmem, _⟩ := readValue_enum_iff.mp hv
    have hcheck := (checkArg_enum hne).mpr ⟨_, hmem, rfl⟩
    exact iff_of_true hcheck trivial
  | range min max =>
    obtain ⟨n, hn, ⟨hmin, hmax⟩, _⟩ := (readValue_range_iff hx).mp hv
    rw [Int32.le_iff_toInt_le] at hmin hmax
    refine (checkArg_range hne).trans ?_
    rw [JsValue.text_str, parseInt_of_literal hn]
    simp only [Fits, hn, Option.some.injEq, exists_eq_left', forall_eq']
    constructor
    · rintro ⟨h1, h2⟩
      have := min.le_toInt
      have := max.toInt_lt
      omega
    · rintro ⟨h1, h2⟩
      rw [toInt_intOf hw h1 h2] at hmin hmax
      exact ⟨hmin, hmax⟩

/-! ## All arguments -/

/-- Each argument is spelled by a word; further words do not matter. -/
def SpellsAll (w : Nat) : List NetType → List JsValue → List (List Char) → Prop
  | type :: types, a :: args, x :: xs => Spells w type a x ∧ SpellsAll w types args xs
  | [], [], _ => True
  | _, _, _ => False

theorem spellsAll_iff (hx : ∀ x ∈ xs, x ≠ []) (hl : args.length = types.length)
    (hc : ∀ y ∈ args.zip (types.map NetType.toNet), checkArg y.1 y.2 = .ok ()) :
    (∃ values, ReadsAll w types xs values ∧ List.Forall₂ Same args values) ↔
      SpellsAll w types args xs := by
  induction types generalizing args xs with
  | nil =>
    obtain rfl := List.length_eq_zero_iff.mp hl
    simp [ReadsAll, SpellsAll]
  | cons type types ih =>
    obtain ⟨a, args, rfl⟩ := List.exists_cons_of_length_eq_add_one hl
    simp only [List.map_cons, List.zip_cons_cons, List.forall_mem_cons] at hc
    cases xs with
    | nil => simp [ReadsAll, SpellsAll]
    | cons x xs =>
      simp only [List.forall_mem_cons] at hx
      have hrest := ih hx.2 (by simpa using hl) hc.2
      rw [SpellsAll, ← spells_iff hx.1 hc.1, ← hrest]
      constructor
      · rintro ⟨values, hreads, hsame⟩
        cases hsame with
        | cons hv hvs =>
          obtain ⟨h1, h2⟩ := hreads
          exact ⟨⟨_, h1, hv⟩, _, h2, hvs⟩
      · rintro ⟨⟨v, h1, hv⟩, vs, h2, hvs⟩
        exact ⟨v :: vs, ⟨h1, h2⟩, .cons hv hvs⟩

/-- The numbers among the words fit. -/
def FitsAll (types : List NetType) (xs : List (List Char)) : Prop :=
  ∀ y ∈ types.zip xs, Fits y.1 y.2

theorem checkArgs_iff_fitsAll (hw : 32 ≤ w) (hx : ∀ x ∈ xs, x ≠ [])
    (h : ReadsAll w types xs values) :
    (∀ y ∈ (xs.map fun x => JsValue.str (String.ofList x)).zip (types.map NetType.toNet),
      checkArg y.1 y.2 = .ok ()) ↔ FitsAll types xs := by
  induction types generalizing xs values with
  | nil => simp [FitsAll]
  | cons type types ih =>
    cases xs with
    | nil => simp [FitsAll]
    | cons x xs =>
      cases values with
      | nil => exact h.elim
      | cons v vs =>
        simp only [List.forall_mem_cons] at hx
        have hrest := ih hx.2 h.2
        simp only [FitsAll] at hrest ⊢
        simp only [List.map_cons, List.zip_cons_cons, List.forall_mem_cons, hrest,
          checkArg_iff_fits hw hx.1 h.1]

/-- The text of an argument is an integer and nothing else, where one is expected. -/
def Plain : NetType → JsValue → Prop
  | .enum _, _ => True
  | .range _ _, a => (literal a.text.toList).isSome

instance (type : NetType) (a : JsValue) : Decidable (Plain type a) :=
  match type with
  | .enum _ => inferInstanceAs (Decidable True)
  | .range _ _ => inferInstanceAs (Decidable (_ = true))

/-- An argument that is not skipped is spelled by its own text, if that is plain. -/
theorem spells_text_iff (hw : 32 ≤ w) (ha : a.falsy = false)
    (hc : checkArg a type.toNet = .ok ()) : Spells w type a a.text.toList ↔ Plain type a := by
  cases type with
  | enum names =>
    obtain ⟨s, _, rfl⟩ := (checkArg_enum ha).mp hc
    simp [Spells, Plain]
  | range min max =>
    obtain ⟨n, hn, hmin, hmax⟩ := (checkArg_range ha).mp hc
    constructor
    · rintro ⟨m, hm, -⟩
      simp [Plain, hm]
    · intro hplain
      obtain ⟨m, hm⟩ := Option.isSome_iff_exists.mp hplain
      have hparse := parseInt_of_literal hm
      rw [String.ofList_toList, hn] at hparse
      obtain rfl := Option.some.inj hparse
      have hint : (intOf w n).toInt = n :=
        toInt_intOf hw (Int.le_trans min.le_toInt hmin) (Int.lt_of_le_of_lt hmax max.toInt_lt)
      refine ⟨n, hm, by rw [hint, hn], ?_, ?_⟩
      · rwa [Int32.le_iff_toInt_le, hint]
      · rwa [Int32.le_iff_toInt_le, hint]

theorem spellsAll_text_iff (hw : 32 ≤ w) (ha : ∀ a ∈ args, a.falsy = false)
    (hl : args.length = types.length)
    (hc : ∀ y ∈ args.zip (types.map NetType.toNet), checkArg y.1 y.2 = .ok ()) :
    SpellsAll w types args (args.map fun a => a.text.toList) ↔
      ∀ y ∈ types.zip args, Plain y.1 y.2 := by
  induction types generalizing args with
  | nil =>
    obtain rfl := List.length_eq_zero_iff.mp hl
    simp [SpellsAll]
  | cons type types ih =>
    obtain ⟨a, args, rfl⟩ := List.exists_cons_of_length_eq_add_one hl
    simp only [List.map_cons, List.zip_cons_cons, List.forall_mem_cons] at hc ha ⊢
    rw [SpellsAll, spells_text_iff hw ha.1 hc.1, ih ha.2 (by simpa using hl) hc.2]

/-! ## Agreement -/

/-- The component executes the action with the values of the arguments. -/
def Agrees (w : Nat) (c : Container) (name : String) (args : List JsValue) (text : String) : Prop :=
  ∃ values, localEventMessage w c [ircChannel c.channel, text] = .executed name values ∧
    List.Forall₂ Same args values

/-- The words of an id, a name and arguments: first one with the part of the id before the
bar, then the name, then one for each argument that spells it. -/
def Spelled (w : Nat) (types : List NetType) (id name : String) (args : List JsValue) : Prop :=
  ∃ target xs, Text.words ' ' id.toList ++ Text.words ' ' name.toList ++
      (args.flatMap fun a => Text.words ' ' a.text.toList) = target :: name.toList :: xs ∧
    ircIdEquals (String.ofList target) id = true ∧ SpellsAll w types args xs

/-- A text without blanks. -/
def IsWord (s : String) : Prop := s ≠ "" ∧ ' ' ∉ s.toList

instance (s : String) : Decidable (IsWord s) := inferInstanceAs (Decidable (_ ∧ _))

theorem words_of_isWord {s : String} (h : IsWord s) : Text.words ' ' s.toList = [s.toList] :=
  Text.words_of_notMem h.2 (by simpa using h.1)

/-- Without blanks and skipped arguments, the numbers have to be plain. -/
theorem spelled_iff {id : String} (hw : 32 ≤ w) (hid : IsWord id) (hname : IsWord name)
    (ha : ∀ a ∈ args, a.falsy = false ∧ IsWord a.text) (hl : args.length = types.length)
    (hc : ∀ y ∈ args.zip (types.map NetType.toNet), checkArg y.1 y.2 = .ok ()) :
    Spelled w types id name args ↔ ∀ y ∈ types.zip args, Plain y.1 y.2 := by
  have hflat : (args.flatMap fun a => Text.words ' ' a.text.toList) =
      args.map fun a => a.text.toList := by
    rw [List.map_eq_flatMap]
    exact List.flatMap_congr fun a hm => words_of_isWord (ha a hm).2
  rw [← spellsAll_text_iff hw (fun a hm => (ha a hm).1) hl hc, Spelled, words_of_isWord hid,
    words_of_isWord hname, hflat]
  constructor
  · rintro ⟨target, xs, hwords, -, hspells⟩
    obtain ⟨-, rfl⟩ : id.toList = target ∧ (args.map fun a => a.text.toList) = xs := by
      simpa using hwords
    exact hspells
  · intro hspells
    exact ⟨id.toList, _, rfl, by simp [ircIdEquals], hspells⟩

variable {text : String} {target : List Char}

theorem ne_nil_of_words {cs word : List Char} (h : Text.words ' ' cs = target :: word :: xs) :
    ∀ x ∈ xs, x ≠ [] := by
  intro x hx
  have hmem : x ∈ Text.words ' ' cs := by
    rw [h]
    simp [hx]
  exact Text.ne_nil_of_mem_words hmem

/-- The proxy and the component agree on the calls whose words spell the arguments; of the
calls that the component takes, the proxy takes those whose numbers fit into an `int`. -/
theorem agree_iff (hw : 32 ≤ w) (hp : Proxy p r channels) (hid : (p.objects r).id = c.id)
    (hk : (p.objects r).clazz = c.clazz.toNet)
    (hm : c.clazz.getMemberByName name = some ⟨name, .action types⟩) :
    (∀ args q, Completes [.executeAction r name args] p q →
      ∃ text, q = p.log (.say (channels.headD "undefined") text) ∧
        (Agrees w c name args text ↔ Spelled w types c.id name args)) ∧
    ∀ text target xs values, Text.words ' ' text.toList = target :: name.toList :: xs →
      xs.length = types.length →
      localEventMessage w c [ircChannel c.channel, text] = .executed name values →
      ((∃ q, Completes [.executeAction r name (xs.map fun x => .str (String.ofList x))] p q) ↔
        FitsAll types xs) := by
  have haction : ∀ ts, (p.objects r).clazz.action name = .ok ts ↔ ts = types.map NetType.toNet := by
    intro ts
    rw [hk, NetClass.action_toNet, hm]
    simp
  constructor
  · intro args q h
    obtain ⟨hcheck, rfl⟩ := hp.completes_iff.mp h
    obtain ⟨ts, hts, hlen, hargs⟩ := NetObject.checkAction_eq_ok_iff.mp hcheck
    obtain rfl := (haction ts).mp hts
    refine ⟨_, rfl, ?_⟩
    have hwords := words_actionMessage c.id name args
    rw [hid]
    unfold Agrees Spelled
    simp only [localEventMessage_eq_executed_iff, ← hwords, hm, Option.some.injEq,
      NetMember.mk.injEq, true_and, MemberType.action.injEq]
    constructor
    · rintro ⟨values, ⟨target, xs, _, htext, heq, rfl, hreads⟩, hsame⟩
      have hne := ne_nil_of_words htext
      exact ⟨target, xs, htext, heq, (spellsAll_iff hne (by simpa using hlen) hargs).mp
        ⟨values, hreads, hsame⟩⟩
    · rintro ⟨target, xs, htext, heq, hspells⟩
      have hne := ne_nil_of_words htext
      obtain ⟨values, hreads, hsame⟩ :=
        (spellsAll_iff hne (by simpa using hlen) hargs).mpr hspells
      exact ⟨values, ⟨target, xs, types, htext, heq, rfl, hreads⟩, hsame⟩
  · intro text target xs values htext hlen hexec
    obtain ⟨target', xs', arguments, htext', -, hm', hreads⟩ :=
      localEventMessage_eq_executed_iff.mp hexec
    obtain ⟨-, rfl⟩ : target = target' ∧ xs = xs' := by simpa [htext] using htext'
    obtain rfl : types = arguments := by simpa [hm] using hm'
    rw [← checkArgs_iff_fitsAll hw (ne_nil_of_words htext) hreads]
    constructor
    · rintro ⟨q, h⟩
      obtain ⟨ts, hts, _, hargs⟩ := NetObject.checkAction_eq_ok_iff.mp (hp.completes_iff.mp h).1
      obtain rfl := (haction ts).mp hts
      exact hargs
    · intro hargs
      exact ⟨_, hp.completes_iff.mpr ⟨NetObject.checkAction_eq_ok_iff.mpr
        ⟨_, (haction _).mpr rfl, by simpa using hlen, hargs⟩, rfl⟩⟩

/-! ## A dimmer -/

def dimmer : Container :=
  ⟨"dimmer", ⟨[⟨"set", .action [.range 0 100]⟩]⟩, "mylife-home-hardware"⟩

def dimmerProxy : Process :=
  ((Process.empty.alloc (netObject "dimmer" dimmer.clazz.toNet)).publishRemote 0
    ["#mylife-home-hardware"]).1.setOnline true

theorem proxy_dimmerProxy : Proxy dimmerProxy 0 ["#mylife-home-hardware"] :=
  proxy_publishRemote Process.empty _ _

theorem getMember_dimmer :
    dimmer.clazz.getMemberByName "set" = some ⟨"set", .action [.range 0 100]⟩ := by decide

/-- The dimmer is set to 50. -/
theorem agree_dimmer : ∃ text, Agrees 32 dimmer "set" [.num (.int 50)] text := by
  have hrun := proxy_dimmerProxy.completes_iff.mpr
    ⟨(by decide : (dimmerProxy.objects 0).checkAction "set" [.num (.int 50)] = .ok ()), rfl⟩
  obtain ⟨text, _, hagrees⟩ := (agree_iff (w := 32) (by decide) proxy_dimmerProxy
    (rfl : _ = dimmer.id) rfl getMember_dimmer).1 _ _ hrun
  refine ⟨text, hagrees.mpr ((spelled_iff (by decide) ?_ ?_ ?_ rfl ?_).mpr ?_)⟩
  · decide
  · decide
  · decide
  · decide
  · decide

/-- Without a value the proxy sends a message that the dimmer answers with a notice. -/
theorem not_agree : ¬ ∀ (w : Nat) (c : Container) (p : Process) (r : ObjRef)
    (channels : List String) (name : String) (args : List JsValue) (q : Process), 32 ≤ w →
      Proxy p r channels → (p.objects r).id = c.id → (p.objects r).clazz = c.clazz.toNet →
      Completes [.executeAction r name args] p q →
      ∃ text, q = p.log (.say (channels.headD "undefined") text) ∧ Agrees w c name args text := by
  intro hall
  have hrun := proxy_dimmerProxy.completes_iff.mpr
    ⟨(by decide : (dimmerProxy.objects 0).checkAction "set" [.null] = .ok ()), rfl⟩
  obtain ⟨text, hlog, values, hexec, _⟩ := hall 32 dimmer _ _ _ _ _ _ (by decide)
    proxy_dimmerProxy rfl rfl hrun
  have htext : text = "dimmer set null" := by
    have htrace := congrArg Process.trace hlog
    simp only [Process.log, List.append_cancel_left_eq, List.cons.injEq, Effect.say.injEq,
      true_and, and_true] at htrace
    exact htrace.symm
  subst htext
  have hnotice : localEventMessage 32 dimmer [ircChannel dimmer.channel, "dimmer set null"] =
      badArguments "set" := by decide
  rw [hnotice] at hexec
  contradiction

end MyLifeHome.Components
