import Mathlib.Data.List.DropRight
import KptrOS.Serial.Printf

/-!
# What `serial_printf` reads of its format

The cursor of the format loop moves twice for a directive: behind the `%`, and behind the
character that follows. When that character is the terminator, the loop goes on behind it.

- `serialPrintfReads`: the format loop with the indices that it reads;
  `serialPrintfReads_snd`: the rest of it is `serial_printf`.
- `StopsAt`: nothing behind the terminator is read, and the loop ends there.
- `danglingPercent`: a format that ends inside a directive; `danglingPercent_iff` says which
  ones do.
- `serialPrintf_stops_iff`: when the loop stops at the terminator.
-/

namespace KptrOS

open CSem

/-- `serial_printf` on a format whose first byte has the index `i`: the indices of the bytes
that it reads through the format pointer, in order, and the output. -/
def serialPrintfReads : CBuf → List Arg → Com1 → (i : Nat) → List Nat × Exec Com1
  | [], _, _, i => ([i], .error .outOfBounds)
  | c :: format, args, out, i =>
    if c = 0 then ([i], .ok out)
    else if c = 37 then -- '%'
      match format with
      | [] => ([i, i, i + 1], .error .outOfBounds)
      | d :: format =>
        match serialPrintfDirective d args out with
        | .error e => ([i, i, i + 1], .error e)
        | .ok (args, out) =>
          let r := serialPrintfReads format args out (i + 2)
          (i :: i :: (i + 1) :: r.1, r.2)
    else
      let r := serialPrintfReads format args (outb out c) (i + 1)
      (i :: i :: i :: r.1, r.2)

/-- The loop ends at the byte with the index `last`: it reads none behind it, and when it reads
that one it is done. -/
structure StopsAt (last : Nat) (r : List Nat × Exec Com1) : Prop where
  inside : ∀ j ∈ r.1, j ≤ last
  ends : last ∈ r.1 → r.1.getLast? = some last ∧ ∃ out, r.2 = .ok out
  reaches : ∀ out, r.2 = .ok out → last ∈ r.1

/-! ## One iteration -/

theorem serialPrintfReads_nul (format : CBuf) (args : List Arg) (out : Com1) (i : Nat) :
    serialPrintfReads (0 :: format) args out i = ([i], .ok out) := by
  rw [serialPrintfReads.eq_def]
  rfl

theorem serialPrintfReads_cons {c : Byte} (h0 : c ≠ 0) (h37 : c ≠ 37) (format : CBuf)
    (args : List Arg) (out : Com1) (i : Nat) :
    serialPrintfReads (c :: format) args out i =
      (i :: i :: i :: (serialPrintfReads format args (outb out c) (i + 1)).1,
        (serialPrintfReads format args (outb out c) (i + 1)).2) := by
  rw [serialPrintfReads.eq_def]
  simp only [if_neg h0, if_neg h37]

theorem serialPrintfReads_directive {d : Byte} {format : CBuf} {args args' : List Arg}
    {out out' : Com1} (h : serialPrintfDirective d args out = .ok (args', out')) (i : Nat) :
    serialPrintfReads (37 :: d :: format) args out i =
      (i :: i :: (i + 1) :: (serialPrintfReads format args' out' (i + 2)).1,
        (serialPrintfReads format args' out' (i + 2)).2) := by
  rw [serialPrintfReads.eq_def]
  simp only [h]
  rfl

theorem serialPrintfReads_fault {d : Byte} {format : CBuf} {args : List Arg} {out : Com1}
    {e : Fault} (h : serialPrintfDirective d args out = .error e) (i : Nat) :
    serialPrintfReads (37 :: d :: format) args out i = ([i, i, i + 1], .error e) := by
  rw [serialPrintfReads.eq_def]
  simp only [h]
  rfl

/-- **Without the indices it is `serial_printf`.** -/
theorem serialPrintfReads_snd (format : CBuf) (args : List Arg) (out : Com1) (i : Nat) :
    (serialPrintfReads format args out i).2 = serialPrintf format args out := by
  fun_induction serialPrintfReads format args out i with
  | case1 => rfl
  | case2 format args out i =>
    rw [serialPrintf.eq_def]
    rfl
  | case3 => rfl
  | case4 args out i d format e herr =>
    rw [serialPrintf_directive, herr]
    rfl
  | case5 args out i d format args' out' hok r _ ih =>
    rw [serialPrintf_directive, hok, ok_bind]
    exact ih
  | case6 c format args out i h0 h37 r ih =>
    rw [serialPrintf_cons h0 h37]
    exact ih

/-- The first byte is read. -/
theorem mem_serialPrintfReads (format : CBuf) (args : List Arg) (out : Com1) (i : Nat) :
    i ∈ (serialPrintfReads format args out i).1 := by
  fun_cases serialPrintfReads format args out i <;> exact List.mem_cons_self

/-! ## Stopping -/

/-- A fault in front of the last byte. -/
theorem stopsAt_error {last : Nat} {js : List Nat} (hjs : ∀ j ∈ js, j < last) (e : Fault) :
    StopsAt last (js, .error e) where
  inside := fun j hj => (hjs j hj).le
  ends := fun h => absurd (hjs last h) (Nat.lt_irrefl last)
  reaches := fun _ h => by cases h

/-- Bytes in front of the last one are read first. -/
theorem StopsAt.prepend {last : Nat} {js : List Nat} {r : List Nat × Exec Com1}
    (h : StopsAt last r) (hjs : ∀ j ∈ js, j < last) : StopsAt last (js ++ r.1, r.2) where
  inside := fun j hj => by
    rcases List.mem_append.mp hj with hj | hj
    · exact (hjs j hj).le
    · exact h.inside j hj
  ends := fun hlast => by
    have hr : last ∈ r.1 := (List.mem_append.mp hlast).resolve_left fun hj =>
      Nat.lt_irrefl last (hjs last hj)
    obtain ⟨hend, hok⟩ := h.ends hr
    refine ⟨?_, hok⟩
    show (js ++ r.1).getLast? = some last
    rw [List.getLast?_append, hend]
    rfl
  reaches := fun out hout => List.mem_append_right js (h.reaches out hout)

/-! ## Formats that end inside a directive -/

/-- The last character is a `%` that introduces a directive. -/
def danglingPercent : List Byte → Bool
  | [] => false
  | c :: text =>
    if c = 37 then
      match text with
      | [] => true
      | _ :: text => danglingPercent text
    else danglingPercent text

/-- Otherwise the loop stops at the terminator, whatever follows it and whatever the arguments
are. -/
theorem stopsAt_of_not_dangling {text : List Byte} (hnul : ∀ c ∈ text, c ≠ 0)
    (h : danglingPercent text = false) (rest : CBuf) (args : List Arg) (out : Com1) (i : Nat) :
    StopsAt (i + text.length) (serialPrintfReads (text ++ 0 :: rest) args out i) := by
  fun_induction danglingPercent text generalizing args out i with
  | case1 =>
    rw [List.nil_append, serialPrintfReads_nul]
    exact ⟨by simp, fun _ => ⟨rfl, out, rfl⟩, fun _ _ => List.mem_cons_self⟩
  | case2 => cases h
  | case3 d text ih =>
    have hrest : ∀ c ∈ text, c ≠ 0 := fun c hc =>
      hnul c (List.mem_cons_of_mem _ (List.mem_cons_of_mem _ hc))
    have hread : ∀ j ∈ [i, i, i + 1], j < i + (37 :: d :: text).length := by simp
    rw [List.cons_append, List.cons_append]
    cases hdir : serialPrintfDirective d args out with
    | error e =>
      rw [serialPrintfReads_fault hdir]
      exact stopsAt_error hread e
    | ok r =>
      have htail := ih hrest h r.1 r.2 (i + 2)
      have hlength : i + 2 + text.length = i + (37 :: d :: text).length := by
        rw [List.length_cons, List.length_cons]
        omega
      rw [hlength] at htail
      rw [@serialPrintfReads_directive d _ args r.1 out r.2 hdir]
      exact htail.prepend hread
  | case4 c text h37 ih =>
    have hrest : ∀ c ∈ text, c ≠ 0 := fun c hc => hnul c (List.mem_cons_of_mem _ hc)
    have hread : ∀ j ∈ [i, i, i], j < i + (c :: text).length := by simp
    have htail := ih hrest h args (outb out c) (i + 1)
    have hlength : i + 1 + text.length = i + (c :: text).length := by
      rw [List.length_cons]
      omega
    rw [hlength] at htail
    rw [List.cons_append, serialPrintfReads_cons (hnul c List.mem_cons_self) h37]
    exact htail.prepend hread

/-- Every directive has arguments that satisfy it. -/
theorem exists_supplies (d : Byte) : ∃ args, Supplies [.ofDirective d] args := by
  cases FormatItem.ofDirective d with
  | literal c => exact ⟨[], Supplies.nil.literal c⟩
  | decimal => exact ⟨[.word 0], Supplies.nil.decimal 0⟩
  | hex => exact ⟨[.word 0], Supplies.nil.hex 0⟩
  | string => exact ⟨[.str [0]], Supplies.nil.string (List.mem_singleton_self 0)⟩
  | percent => exact ⟨[], Supplies.nil.percent⟩
  | unknown => exact ⟨[], Supplies.nil.unknown⟩

/-- The terminator is an unknown directive. -/
theorem serialPrintfDirective_nul (args : List Arg) (out : Com1) :
    serialPrintfDirective 0 args out = .ok (args, out ++ lit "[UNKNOWN]") := by
  show (do return (args, ← serialWrite (cstr "[UNKNOWN]") out)) = _
  rw [serialWrite_cstr]
  rfl

/-- **The terminator is stepped over** in a format that ends inside a directive. -/
theorem read_behind_of_dangling {text : List Byte} (hnul : ∀ c ∈ text, c ≠ 0)
    (h : danglingPercent text = true) (rest : CBuf) :
    ∃ args, ∀ out i, i + text.length + 1 ∈
      (serialPrintfReads (text ++ 0 :: rest) args out i).1 := by
  fun_induction danglingPercent text with
  | case1 => cases h
  | case2 =>
    refine ⟨[], fun out i => ?_⟩
    show i + 2 ∈ (serialPrintfReads (37 :: 0 :: rest) [] out i).1
    rw [serialPrintfReads_directive (serialPrintfDirective_nul [] out)]
    refine List.mem_cons_of_mem _ (List.mem_cons_of_mem _ (List.mem_cons_of_mem _ ?_))
    exact mem_serialPrintfReads rest [] _ (i + 2)
  | case3 d text ih =>
    obtain ⟨args, hargs⟩ := ih (fun c hc =>
      hnul c (List.mem_cons_of_mem _ (List.mem_cons_of_mem _ hc))) h
    obtain ⟨first, hfirst⟩ := exists_supplies d
    refine ⟨first ++ args, fun out i => ?_⟩
    obtain ⟨text', args', hnil, -, hdir⟩ := serialPrintfDirective_render hfirst args out
    cases hnil
    rw [List.cons_append, List.cons_append, serialPrintfReads_directive hdir]
    refine List.mem_cons_of_mem _ (List.mem_cons_of_mem _ (List.mem_cons_of_mem _ ?_))
    have htail := hargs (out ++ text') (i + 2)
    have hlength : i + 2 + text.length + 1 = i + (37 :: d :: text).length + 1 := by
      rw [List.length_cons, List.length_cons]
      omega
    rwa [hlength] at htail
  | case4 c text h37 ih =>
    obtain ⟨args, hargs⟩ := ih (fun c hc => hnul c (List.mem_cons_of_mem _ hc)) h
    refine ⟨args, fun out i => ?_⟩
    rw [List.cons_append, serialPrintfReads_cons (hnul c List.mem_cons_self) h37]
    refine List.mem_cons_of_mem _ (List.mem_cons_of_mem _ (List.mem_cons_of_mem _ ?_))
    have htail := hargs (outb out c) (i + 1)
    have hlength : i + 1 + text.length + 1 = i + (c :: text).length + 1 := by
      rw [List.length_cons]
      omega
    rwa [hlength] at htail

/-! ## Which formats these are -/

/-- The number of `%` at the end of a text. -/
def trailingPercents (text : List Byte) : Nat := (text.rtakeWhile (· == 37)).length

/-- A text that does not end in `%` leaves no directive open. -/
theorem danglingPercent_append {p : List Byte} (hp : ∀ hne : p ≠ [], p.getLast hne ≠ 37)
    (q : List Byte) : danglingPercent (p ++ q) = danglingPercent q := by
  fun_induction danglingPercent p with
  | case1 => rfl
  | case2 => exact absurd rfl (hp (List.cons_ne_nil _ _))
  | case3 d p ih =>
    show danglingPercent (p ++ q) = danglingPercent q
    refine ih fun hne => ?_
    have hlast := hp (List.cons_ne_nil _ _)
    rwa [List.getLast_cons (List.cons_ne_nil d p), List.getLast_cons hne] at hlast
  | case4 c p h37 ih =>
    have hstep : danglingPercent (c :: (p ++ q)) = danglingPercent (p ++ q) := by
      rw [danglingPercent.eq_def]
      exact if_neg h37
    rw [List.cons_append, hstep]
    refine ih fun hne => ?_
    have hlast := hp (List.cons_ne_nil _ _)
    rwa [List.getLast_cons hne] at hlast

theorem danglingPercent_replicate (n : Nat) :
    danglingPercent (List.replicate n 37) = true ↔ n % 2 = 1 := by
  induction n using Nat.twoStepInduction with
  | zero => exact iff_of_false Bool.false_ne_true (by decide)
  | one => exact iff_of_true rfl rfl
  | more n ih _ =>
    rw [Nat.add_mod_right, ← ih]
    exact Iff.rfl

/-- A format ends inside a directive exactly when an odd number of `%` ends it. -/
theorem danglingPercent_iff (text : List Byte) :
    danglingPercent text = true ↔ trailingPercents text % 2 = 1 := by
  have hsplit : text.rdropWhile (· == 37) ++ text.rtakeWhile (· == 37) = text :=
    List.rdropWhile_append_rtakeWhile
  have hall : text.rtakeWhile (· == 37) = List.replicate (trailingPercents text) 37 :=
    List.eq_replicate_iff.mpr ⟨rfl, fun c hc => by
      have h37 := List.mem_rtakeWhile_imp hc
      exact beq_iff_eq.mp h37⟩
  have hlast : ∀ hne : text.rdropWhile (· == 37) ≠ [],
      (text.rdropWhile (· == 37)).getLast hne ≠ 37 := fun hne h37 =>
    List.rdropWhile_last_not _ _ hne (beq_iff_eq.mpr h37)
  have hrun := danglingPercent_append hlast (text.rtakeWhile (· == 37))
  rw [hsplit] at hrun
  rw [hrun, hall, danglingPercent_replicate]

/-- **When `serial_printf` stops at the end of its format**: for every terminated format, with
anything behind it and for all arguments, exactly when the number of `%` in front of the
terminator is even. -/
theorem serialPrintf_stops_iff (format : CString) (rest : CBuf) :
    (∀ args out, StopsAt format.bytes.length
      (serialPrintfReads (format.bytes ++ 0 :: rest) args out 0)) ↔
      trailingPercents format.bytes % 2 = 0 := by
  have hodd := danglingPercent_iff format.bytes
  cases hdangling : danglingPercent format.bytes with
  | true =>
    rw [hdangling, eq_self, true_iff] at hodd
    refine iff_of_false (fun h => ?_) (by omega)
    obtain ⟨args, hargs⟩ := read_behind_of_dangling format.no_nul hdangling rest
    have hle := (h args []).inside _ (hargs [] 0)
    omega
  | false =>
    rw [hdangling] at hodd
    have heven : ¬ trailingPercents format.bytes % 2 = 1 := fun h =>
      Bool.false_ne_true (hodd.mpr h)
    refine iff_of_true (fun args out => ?_) (by omega)
    have hstops := stopsAt_of_not_dangling format.no_nul hdangling rest args out 0
    rwa [Nat.zero_add] at hstops

/-- `"%"`: the terminator is taken for an unknown directive, and what follows it is printed. -/
theorem serialPrintf_readsBehind (out : Com1) :
    serialPrintfReads [37, 0, 65, 0] [] out 0 =
      ([0, 0, 1, 2, 2, 2, 3], .ok (out ++ lit "[UNKNOWN]" ++ [65])) := by
  rw [serialPrintfReads_directive (serialPrintfDirective_nul [] out),
    serialPrintfReads_cons (by decide) (by decide), serialPrintfReads_nul]
  rfl

/-- The format has one character, and the byte at index 3 is read. -/
theorem serialPrintf_stepsOver :
    ∃ format : CString, format.bytes = [37] ∧
      ¬ StopsAt 1 (serialPrintfReads (format.bytes ++ 0 :: [65, 0]) [] [] 0) := by
  refine ⟨⟨[37], by decide⟩, rfl, fun h => ?_⟩
  have hread := h.inside 3
  rw [List.singleton_append, serialPrintf_readsBehind] at hread
  exact absurd (hread (by decide)) (by decide)

end KptrOS
