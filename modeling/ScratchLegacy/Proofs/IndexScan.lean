import ScratchLegacy.Proofs.TokenOrigins

/-!
# What the hidden procedures compute

The hidden procedure of an item number counts an index variable up from one until it
stands at an equal entry of the list, or behind the end. This module gives the few
operations that such a procedure is made of their usual meaning, and runs it.

A `Legacy.World` holds the variables and the lists that a script sees, by name. What an
expression evaluates to in it is computed (`Token.eval`), and `Legacy.Runs` relates a
world, the statements that run in it, and the world that they end in. A run is a
function of its start (`Runs.unique`).

`runs_scan` is the loop: its invariant is that no entry in front of the index is equal
to the item. The variable ends at the place of the first equal entry, counted from
one. Where there is none it ends one behind the last entry, and not at zero.
-/

namespace ScratchLegacy

namespace Legacy

/-! ## Worlds -/

/-- **What a script sees**: the variables and the lists, by name. -/
structure World where
  vars : String → Json
  lists : String → List Json

namespace World

/-- The world after an assignment. -/
def set (w : World) (name : String) (v : Json) : World :=
  { w with vars := Function.update w.vars name v }

variable (w : World) (name : String)

/-- An assignment leaves the lists alone. -/
@[simp] theorem lists_set (v : Json) : (w.set name v).lists = w.lists := rfl

/-- An assigned variable has its value. -/
@[simp] theorem vars_set (v : Json) : (w.set name v).vars name = v := by
  simp [set]

/-- Only the last of two assignments to a variable counts. -/
@[simp] theorem set_set (v v' : Json) : (w.set name v).set name v' = w.set name v' := by
  simp [set]

/-- Assigning the value that a variable has changes nothing. -/
@[simp] theorem set_self : w.set name (w.vars name) = w := by
  simp [set]

/-- **The entry at a place**, counted from one, and the empty text where there is
none. -/
def entry (list : String) (place : Int) : Json :=
  if 1 ≤ place then ((w.lists list)[(place - 1).toNat]?).getD (.text "") else .text ""

/-- The places of the entries are those of the list, one more each. -/
theorem entry_succ (list : String) (i : Nat) :
    w.entry list ((i + 1 : Nat) : Int) = ((w.lists list)[i]?).getD (.text "") := by
  rw [entry, if_pos (by omega)]
  congr 2
  omega

end World

/-! ## Expressions -/

section Meaning

variable (equal : Json → Json → Bool)

/-- **What an operation yields** on the values of its arguments. -/
def World.apply (w : World) : String → List Json → Option Json
  | "readVariable", [.text name] => some (w.vars name)
  | "getLine:ofList:", [.number (.integer place), .text list] => some (w.entry list place)
  | "lineCountOfList:", [.text list] => some (Json.ofNat (w.lists list).length)
  | "=", [a, b] => some (.bool (equal a b))
  | ">", [.number (.integer a), .number (.integer b)] => some (.bool (b < a))
  | "|", [.bool a, .bool b] => some (.bool (a || b))
  | _, _ => none

mutual

/-- **The value of an expression** in a world. -/
def Token.eval (w : World) : Token → Option Json
  | .value v => some v
  | .op name arguments => (evalAll w arguments).bind (w.apply equal name)
  | .list _ | .stack _ => none

/-- The values of several expressions. -/
def Token.evalAll (w : World) : List Token → Option (List Json)
  | [] => some []
  | t :: rest => (eval w t).bind (fun v => (evalAll w rest).map (v :: ·))

end

end Meaning

/-! ## Statements -/

/-- **What a token says as a statement.** -/
inductive Statement where
  /-- The head of a procedure, which does nothing. -/
  | head
  | assign (name : String) (value : Token)
  | change (name : String) (value : Token)
  /-- A loop, with a condition that is tested before each pass. -/
  | until (condition : Token) (body : List Token)

/-- The statement that a token stands for. -/
def Token.statement? : Token → Option Statement
  | .op "procDef" _ => some .head
  | .op "setVar:to:" [.value (.text name), e] => some (.assign name e)
  | .op "changeVar:by:" [.value (.text name), e] => some (.change name e)
  | .op "doUntil" [condition, .stack body] => some (.until condition body)
  | _ => none

/-- **The statements run from the first world to the second.** -/
inductive Runs (equal : Json → Json → Bool) : World → List Token → World → Prop where
  | done (w : World) : Runs equal w [] w
  | head {w w' : World} {t : Token} {rest : List Token} (form : t.statement? = some .head)
      (next : Runs equal w rest w') : Runs equal w (t :: rest) w'
  | assign {w w' : World} {t : Token} {rest : List Token} {name : String} {e : Token} {v : Json}
      (form : t.statement? = some (.assign name e)) (value : e.eval equal w = some v)
      (next : Runs equal (w.set name v) rest w') : Runs equal w (t :: rest) w'
  | change {w w' : World} {t : Token} {rest : List Token} {name : String} {e : Token} {m n : Int}
      (form : t.statement? = some (.change name e))
      (before : w.vars name = .number (.integer m))
      (value : e.eval equal w = some (.number (.integer n)))
      (next : Runs equal (w.set name (.number (.integer (m + n)))) rest w') :
      Runs equal w (t :: rest) w'
  | stop {w w' : World} {t : Token} {rest : List Token} {condition : Token} {body : List Token}
      (form : t.statement? = some (.until condition body))
      (holds : condition.eval equal w = some (.bool true)) (next : Runs equal w rest w') :
      Runs equal w (t :: rest) w'
  | again {w w₁ w' : World} {t : Token} {rest : List Token} {condition : Token} {body : List Token}
      (form : t.statement? = some (.until condition body))
      (fails : condition.eval equal w = some (.bool false)) (pass : Runs equal w body w₁)
      (next : Runs equal w₁ (t :: rest) w') : Runs equal w (t :: rest) w'

section Runs

variable {equal : Json → Json → Bool}

/-- **A run is a function of its start.** -/
theorem Runs.unique {w w₁ w₂ : World} {ts : List Token} (h₁ : Runs equal w ts w₁)
    (h₂ : Runs equal w ts w₂) : w₁ = w₂ := by
  induction h₁ generalizing w₂ with
  | done w => cases h₂; rfl
  | head form _ ih =>
    cases h₂ with
    | head _ next => exact ih next
    | assign form' _ _ | change form' _ _ _ | stop form' _ _ | again form' _ _ _ =>
      cases form.symm.trans form'
  | assign form value _ ih =>
    cases h₂ with
    | assign form' value' next =>
      cases form.symm.trans form'
      cases value.symm.trans value'
      exact ih next
    | head form' _ | change form' _ _ _ | stop form' _ _ | again form' _ _ _ =>
      cases form.symm.trans form'
  | change form before value _ ih =>
    cases h₂ with
    | change form' before' value' next =>
      cases form.symm.trans form'
      cases before.symm.trans before'
      cases value.symm.trans value'
      exact ih next
    | head form' _ | assign form' _ _ | stop form' _ _ | again form' _ _ _ =>
      cases form.symm.trans form'
  | stop form holds _ ih =>
    cases h₂ with
    | stop _ _ next => exact ih next
    | again form' fails _ _ =>
      cases form.symm.trans form'
      cases holds.symm.trans fails
    | head form' _ | assign form' _ _ | change form' _ _ _ => cases form.symm.trans form'
  | again form fails _ _ ihPass ihNext =>
    cases h₂ with
    | again form' _ pass next =>
      cases form.symm.trans form'
      cases ihPass pass
      exact ihNext next
    | stop form' holds _ =>
      cases form.symm.trans form'
      cases fails.symm.trans holds
    | head form' _ | assign form' _ _ | change form' _ _ _ => cases form.symm.trans form'

end Runs

/-! ## The scan -/

section Scan

variable (equal : Json → Json → Bool) {w : World} (name list : String) (item : Json)

/-- The condition that ends a scan: the index stands at an equal entry, or behind the
end. -/
def scanned : Token :=
  .op "|"
    [.op "=" [.op "getLine:ofList:" [.op "readVariable" [.text name], .text list], .value item],
     .op ">" [.op "readVariable" [.text name], .op "lineCountOfList:" [.text list]]]

/-- The loop of a scan. -/
def scan : Token :=
  .op "doUntil" [scanned name list item, .stack [.op "changeVar:by:" [.text name, .nat 1]]]

/-- An operation on two expressions is applied to their values. -/
theorem eval_binary {t u : Token} {a b : Json} (ht : t.eval equal w = some a)
    (hu : u.eval equal w = some b) (operation : String) :
    (Token.op operation [t, u]).eval equal w = w.apply equal operation [a, b] := by
  rw [Token.eval, Token.evalAll, Token.evalAll, Token.evalAll, ht, hu]
  rfl

/-- **What the condition says** while the index stands at a place. -/
theorem eval_scanned {i : Nat} (hindex : w.vars name = Json.ofNat (i + 1)) :
    (scanned name list item).eval equal w
      = some (.bool (equal (((w.lists list)[i]?).getD (.text "")) item
          || decide ((w.lists list).length < i + 1))) := by
  have hread : (Token.op "readVariable" [.text name]).eval equal w
      = some (.number (.integer ((i + 1 : Nat) : Int))) := congrArg some hindex
  have hlist : (Token.text list).eval equal w = some (.text list) := rfl
  have hentry : (Token.op "getLine:ofList:" [.op "readVariable" [.text name], .text list]).eval equal w
      = some (((w.lists list)[i]?).getD (.text "")) := by
    rw [eval_binary equal hread hlist, ← World.entry_succ]
    rfl
  have hlength : (Token.op "lineCountOfList:" [.text list]).eval equal w
      = some (.number (.integer ((w.lists list).length : Int))) := rfl
  have hfound : (Token.op "=" [_, .value item]).eval equal w = some (.bool _) :=
    eval_binary equal hentry rfl "="
  have hbehind : (Token.op ">" [_, _]).eval equal w = some (.bool _) :=
    eval_binary equal hread hlength ">"
  rw [scanned, eval_binary equal hfound hbehind]
  show some (Json.bool (_ || decide (((w.lists list).length : Int) < (i + 1 : Nat)))) = _
  simp only [Int.ofNat_lt]

/-- The condition holds at the first equal entry, and behind the end. -/
theorem scanned_at_findIdx (contents : List Json) :
    (equal ((contents[contents.findIdx (equal · item)]?).getD (.text "")) item
      || decide (contents.length < contents.findIdx (equal · item) + 1)) = true := by
  by_cases hin : contents.findIdx (equal · item) < contents.length
  · have hequal : equal (contents[contents.findIdx (equal · item)]) item = true :=
      List.findIdx_getElem (w := hin)
    rw [List.getElem?_eq_getElem hin, Option.getD_some, hequal, Bool.true_or]
  · rw [decide_eq_true (by omega), Bool.or_true]

/-- The condition fails in front of that. -/
theorem scanned_before_findIdx {contents : List Json} {i : Nat}
    (hi : i < contents.findIdx (equal · item)) :
    (equal ((contents[i]?).getD (.text "")) item || decide (contents.length < i + 1)) = false := by
  have hin : i < contents.length := Nat.lt_of_lt_of_le hi List.findIdx_le_length
  have hequal : equal contents[i] item = false := by
    simpa using List.not_of_lt_findIdx hi
  rw [List.getElem?_eq_getElem hin, Option.getD_some, hequal, Bool.false_or,
    decide_eq_false (by omega)]

/-- A pass of the loop moves the index on. -/
theorem runs_pass {i : Nat} (hindex : w.vars name = Json.ofNat (i + 1)) :
    Runs equal w [.op "changeVar:by:" [.text name, .nat 1]] (w.set name (Json.ofNat (i + 2))) :=
  .change rfl hindex rfl (.done _)

/-- **The loop ends at the first equal entry, or behind the end**, when it starts in
front of that: no entry in front of the index is equal to the item. -/
theorem runs_scan {i : Nat} (hindex : w.vars name = Json.ofNat (i + 1))
    (hfirst : i ≤ (w.lists list).findIdx (equal · item)) :
    Runs equal w [scan name list item]
      (w.set name (Json.ofNat ((w.lists list).findIdx (equal · item) + 1))) := by
  -- on how far the index is from where it ends
  induction hdistance : (w.lists list).findIdx (equal · item) - i generalizing w i with
  | zero =>
    obtain rfl : i = (w.lists list).findIdx (equal · item) := by omega
    have hholds := eval_scanned equal name list item hindex
    rw [scanned_at_findIdx] at hholds
    rw [← hindex, World.set_self]
    exact .stop rfl hholds (.done w)
  | succ distance ih =>
    have hfails := eval_scanned equal name list item hindex
    rw [scanned_before_findIdx equal item (by omega)] at hfails
    have hnext := ih (w := w.set name (Json.ofNat (i + 2))) (i := i + 1)
      (w.vars_set name _) (by rw [World.lists_set]; omega) (by rw [World.lists_set]; omega)
    rw [World.lists_set, World.set_set] at hnext
    exact .again rfl hfails (runs_pass equal name hindex) hnext

end Scan

/-! ## Item numbers -/

/-- **The literal that an input is**: its value in the legacy format. -/
def literal? : Input → Option Json
  | .number value => some value.toJson
  | .angle degrees => some (Json.ofFloat degrees)
  | .color c => some (Json.ofNat c.packed)
  | .text s | .menu _ s => some (.text s)
  | .boolean b => some (.bool b)
  | _ => none

/-- A literal is translated into its value. -/
theorem expression_of_literal {specOf : String → String} {input : Input} {v : Json}
    (h : literal? input = some v) : (readInput specOf input).expression.value = .value v := by
  cases input with
  | broadcastRef _ | variableRef _ | listRef _ | block _ | stack _ | arguments _ => cases h
  | _ =>
    cases h
    rfl

/-- An expression in a slot is what fills the slot. -/
theorem slotExpression_of_input? {specOf : String → String} {b : Block} {slot : String}
    {input : Input} (h : b.input? slot = some input) :
    slotExpression specOf b slot = (readInput specOf input).expression.value := by
  rw [slotExpression, slotReadings, slotReading_map, h]
  rfl

section Procedure

variable (specOf : String → String) {r : Block} {list : DataRef} {input : Input} {item : Json}

/-- **The hidden procedure of an item number** of a literal in a list is a scan that
starts at the first entry. -/
theorem statements_indexScript (hlist : r.input? "LIST" = some (.listRef list))
    (hinput : r.input? "ITEM" = some input) (hitem : literal? input = some item) :
    (indexScript specOf r).statements
      = [.op "procDef" [.text (indexSpec r.id), .list [], .list [], .bool true],
         .op "setVar:to:" [.text (indexVariable r.id), .nat 1],
         scan (indexVariable r.id) list.name item] := by
  rw [indexScript, slotExpression_of_input? hlist, slotExpression_of_input? hinput,
    expression_of_literal hitem]
  rfl

/-- **The run of a hidden procedure.** -/
theorem runs_indexScript (hlist : r.input? "LIST" = some (.listRef list))
    (hinput : r.input? "ITEM" = some input) (hitem : literal? input = some item)
    (equal : Json → Json → Bool) (w : World) :
    Runs equal w (indexScript specOf r).statements (w.set (indexVariable r.id)
      (Json.ofNat ((w.lists list.name).findIdx (equal · item) + 1))) := by
  have hscan := runs_scan equal (indexVariable r.id) list.name item
    (w := w.set (indexVariable r.id) (Json.ofNat 1)) (i := 0) (w.vars_set _ _) (Nat.zero_le _)
  rw [World.lists_set, World.set_set] at hscan
  rw [statements_indexScript specOf hlist hinput hitem]
  exact .head rfl (.assign rfl rfl hscan)

end Procedure

end Legacy

namespace Target

open Legacy

/-- **What the hidden procedure of an item number computes**, for a literal in a list.
It is among the legacy scripts, it runs to its end from every world, and it changes
nothing but the index variable. That ends at a place, counted from one, with no equal
entry in front of it; the entry there is equal to the item. Where the list has no
equal entry the place is the one behind its end. It is never zero, which the current
format yields there. -/
theorem index_scan_finds_place (target : Target) {r : Block} (hr : r ∈ itemNumbersIn target)
    {list : DataRef} (hlist : r.input? "LIST" = some (.listRef list)) {input : Input} {item : Json}
    (hinput : r.input? "ITEM" = some input) (hitem : literal? input = some item)
    (equal : Json → Json → Bool) (w : World) :
    indexScript (specOf target) r ∈ emitScripts target
      ∧ ∃ place, 0 < place
        ∧ (∀ w', Runs equal w (indexScript (specOf target) r).statements w'
            ↔ w' = w.set (indexVariable r.id) (Json.ofNat place))
        ∧ (∀ e ∈ (w.lists list.name).take (place - 1), equal e item = false)
        ∧ (∀ e ∈ (w.lists list.name)[place - 1]?, equal e item = true)
        ∧ (place = (w.lists list.name).length + 1
            ↔ ∀ e ∈ w.lists list.name, equal e item = false) := by
  have hrun := runs_indexScript (specOf target) hlist hinput hitem equal w
  refine ⟨mem_emitScripts.mpr (.inr ⟨r, hr, rfl⟩),
    (w.lists list.name).findIdx (equal · item) + 1, Nat.succ_pos _,
    fun w' => ⟨fun h => h.unique hrun, fun h => h ▸ hrun⟩, fun e he => ?_, fun e he => ?_, ?_⟩
  · exact List.false_of_mem_take_findIdx (p := (equal · item)) he
  · rw [Nat.add_sub_cancel] at he
    obtain ⟨hin, rfl⟩ := List.getElem?_eq_some_iff.mp he
    exact List.findIdx_getElem (w := hin)
  · rw [Nat.add_right_cancel_iff]
    exact List.findIdx_eq_length

/-- The reporter of the place of Bob in a list of names. -/
def bobRank : Block :=
  { id := "i", opcode := "data_itemnumoflist"
    inputs := [("ITEM", .text "Bob"), ("LIST", .listRef ⟨"l", "names"⟩)] }

/-- A target that says the place of Bob. -/
def herald : Target :=
  { name := "Cat", pose := none
    scripts := [⟨0, 0, [{ id := "s", opcode := "looks_say"
                          inputs := [("MESSAGE", .block bobRank)] }]⟩] }

/-- Texts are equal when they are the same. -/
def sameText : Json → Json → Bool
  | .text a, .text b => a == b
  | _, _ => false

/-- A world with some names, and no variable set. -/
def withNames (names : List String) : World := ⟨fun _ => .text "", fun _ => names.map .text⟩

/-- The place of Bob is an item number of the target. -/
theorem bobRank_mem_itemNumbersIn : bobRank ∈ itemNumbersIn herald := by
  refine mem_itemNumbersIn.mpr ⟨_, List.mem_cons_self, List.mem_flatMap.mpr
    ⟨_, List.mem_cons_self, List.mem_filter.mpr ⟨?_, rfl⟩⟩⟩
  refine passedInput_subset_passed (e := (.expression, .block bobRank)) List.mem_cons_self ?_
  rw [passedInput]
  exact self_mem_passed true bobRank

/-- Bob is found behind Ann. -/
theorem herald_finds_bob :
    Runs sameText (withNames ["Ann", "Bob"]) (indexScript (specOf herald) bobRank).statements
      ((withNames ["Ann", "Bob"]).set "Index i" (Json.ofNat 2)) := by
  obtain ⟨_, place, hpos, hruns, hfirst, hthere, _⟩ := index_scan_finds_place herald
    bobRank_mem_itemNumbersIn rfl rfl rfl sameText (withNames ["Ann", "Bob"])
  -- Ann is not equal to Bob, so the place is not the first; Bob is not in front of it
  obtain rfl : place = 2 := by
    match place, hpos, hfirst, hthere with
    | 1, _, _, hthere => exact absurd (hthere (.text "Ann") rfl) (by decide)
    | 2, _, _, _ => rfl
    | n + 3, _, hfirst, _ =>
      have hbob : Json.text "Bob" ∈ [Json.text "Ann", .text "Bob"].take (n + 2) := by simp
      exact absurd (hfirst _ hbob) (by decide)
  exact (hruns _).mpr rfl

/-- **Where Bob is not among the names**, the index variable does not end at zero but
at the place behind Ann. -/
theorem herald_misses_bob :
    ∃ r ∈ itemNumbersIn herald, r.input? "ITEM" = some (.text "Bob")
      ∧ (∀ e ∈ (withNames ["Ann"]).lists "names", sameText e (.text "Bob") = false)
      ∧ ∀ w', Runs sameText (withNames ["Ann"]) (indexScript (specOf herald) r).statements w' →
          w'.vars (indexVariable r.id) = Json.ofNat 2
            ∧ w'.vars (indexVariable r.id) ≠ Json.ofNat 0 := by
  refine ⟨bobRank, bobRank_mem_itemNumbersIn, rfl, ?_, fun w' hw' => ?_⟩
  · intro e he
    cases List.mem_singleton.mp he
    decide
  · have hrun := runs_indexScript (specOf herald) (r := bobRank) rfl rfl rfl sameText
      (withNames ["Ann"])
    rw [hw'.unique hrun, World.vars_set]
    exact ⟨rfl, fun heq => absurd (Json.number.inj heq) (by decide)⟩

end Target

end ScratchLegacy
