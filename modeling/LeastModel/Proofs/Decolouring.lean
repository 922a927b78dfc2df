import LeastModel.Proofs.EscapeSequences

/-!
# Colours taken back

An event that is shown in colours is, without its colour sequences, what is shown
without colours (`Event.stripColours_render`). The two wordings of relations are
written on their own, and the coloured one has to strip to the plain one piece by
piece (`RelationInfo.stripsTo_render`, `Event.stripsTo_renderUnnamed`). What has to
be seen besides is that nothing in a wording brings in an escape byte that was not
in the event: not the numbers, not the labels, and not the ways in which a text is
cut short or spelled out.
-/

namespace LeastModel

open Text

/-! ## What an event holds -/

/-- The texts in a value, or what it is spelled like. -/
def Datum.strings : Datum → List Bytes
  | .text s => [s]
  | .texts ss => ss
  | .relations rs => rs.flatMap fun r => r.name :: r.attrs
  | .failure message => [message]
  | .other asText asValue amongData => [asText, asValue, amongData]
  | .int _ | .flag _ | .nothing => []

namespace Event

/-- The texts in an event: its name, the keys of its data and the texts in their
values. -/
def strings (e : Event) : List Bytes :=
  e.name :: e.data.flatMap fun (key, value) => key :: value.strings

/-- No text in the event has an escape byte. -/
def Unescaped (e : Event) : Prop := ∀ s ∈ e.strings, Text.Unescaped s

instance (e : Event) : Decidable e.Unescaped :=
  inferInstanceAs (Decidable (∀ s ∈ e.strings, Text.Unescaped s))

variable {e : Event}

theorem Unescaped.name (h : e.Unescaped) : Text.Unescaped e.name := h _ List.mem_cons_self

theorem Unescaped.data (h : e.Unescaped) {key : Bytes} {value : Datum}
    (hmem : (key, value) ∈ e.data) :
    Text.Unescaped key ∧ ∀ s ∈ value.strings, Text.Unescaped s := by
  have hstrings : ∀ s ∈ key :: value.strings, Text.Unescaped s := fun s hs =>
    h s (List.mem_cons_of_mem _ (List.mem_flatMap.mpr ⟨_, hmem, hs⟩))
  exact List.forall_mem_cons.mp hstrings

theorem Unescaped.get? (h : e.Unescaped) {key : Bytes} {value : Datum}
    (hvalue : e.get? key = some value) : ∀ s ∈ value.strings, Text.Unescaped s := by
  rw [Event.get?, List.lookup_eq_some_iff] at hvalue
  obtain ⟨front, back, hdata, -⟩ := hvalue
  have hmem : (key, value) ∈ e.data := by simp [hdata]
  exact (h.data hmem).2

theorem Unescaped.value (h : e.Unescaped) (key : Bytes) :
    ∀ s ∈ (e.value key).strings, Text.Unescaped s := by
  rw [Event.value]
  cases hvalue : e.get? key with
  | none => exact fun s hs => absurd hs List.not_mem_nil
  | some value => exact h.get? hvalue

theorem Unescaped.texts (h : e.Unescaped) (key : Bytes) :
    ∀ s ∈ e.texts key, Text.Unescaped s := by
  rw [Event.texts]
  split
  · exact h.get? ‹_›
  · exact fun s hs => absurd hs List.not_mem_nil

end Event

/-! ## What is shown of a value -/

namespace Datum

theorem unescaped_bracketed {ss : List Bytes} (h : ∀ s ∈ ss, Unescaped s) :
    Unescaped (bracketed ss) :=
  ((by decide : Unescaped (Bytes.ofString "[")).append (.join (by decide) h)).append (by decide)

theorem unescaped_showInfos {number : Int → Bytes} (hnumber : ∀ n, Unescaped (number n))
    {rs : List RelationInfo} (h : ∀ s ∈ (Datum.relations rs).strings, Unescaped s) :
    Unescaped (showInfos number rs) := by
  refine unescaped_bracketed fun s hs => ?_
  obtain ⟨r, hr, rfl⟩ := List.mem_map.mp hs
  have hstrings : ∀ s ∈ r.name :: r.attrs, Unescaped s :=
    fun s hs => h s (List.mem_flatMap.mpr ⟨r, hr, hs⟩)
  obtain ⟨hname, hattrs⟩ := List.forall_mem_cons.mp hstrings
  simp only [unescaped_append]
  exact ⟨⟨⟨⟨⟨⟨by decide, hname⟩, by decide⟩, unescaped_bracketed hattrs⟩, by decide⟩, hnumber _⟩,
    by decide⟩

theorem unescaped_strayInt (n : Int) : Unescaped (strayInt n) := by
  simp only [strayInt, unescaped_append]
  exact ⟨⟨by decide, .ofInt n⟩, by decide⟩

theorem unescaped_showFlag (b : Bool) : Unescaped (showFlag b) := by
  cases b <;> decide

theorem unescaped_asText {d : Datum} (h : ∀ s ∈ d.strings, Unescaped s) :
    Unescaped d.asText := by
  cases d with
  | int n => exact unescaped_strayInt n
  | text s => exact h s List.mem_cons_self
  | flag b => cases b <;> decide
  | nothing => decide
  | texts ss => exact unescaped_bracketed h
  | relations rs => exact unescaped_showInfos unescaped_strayInt h
  | failure message => exact h message List.mem_cons_self
  | other asText asValue amongData => exact h asText (by simp [strings])

theorem unescaped_asValue {d : Datum} (h : ∀ s ∈ d.strings, Unescaped s) :
    Unescaped d.asValue := by
  cases d with
  | int n => exact .ofInt n
  | text s => exact h s List.mem_cons_self
  | flag b => exact unescaped_showFlag b
  | nothing => decide
  | texts ss => exact unescaped_bracketed h
  | relations rs => exact unescaped_showInfos .ofInt h
  | failure message => exact h message List.mem_cons_self
  | other asText asValue amongData => exact h asValue (by simp [strings])

theorem unescaped_amongData {d : Datum} (h : ∀ s ∈ d.strings, Unescaped s) :
    Unescaped d.amongData := by
  cases d with
  | other asText asValue amongData => exact h amongData (by simp [strings])
  | _ => exact unescaped_asValue h

end Datum

/-! ## Wordings -/

namespace RelationInfo

theorem stripsTo_renderCount {label : Bytes} (h : Unescaped label) (n : Int) :
    StripsTo (renderCount true label n) (Bytes.ofInt n ++ " " ++ label) :=
  (StripsTo.dye _ (.ofInt n)).append (.literal " ") |>.append (.refl h)

theorem stripsTo_render {r : RelationInfo} (h : ∀ s ∈ r.name :: r.attrs, Unescaped s) :
    StripsTo (r.render true) (r.render false) := by
  obtain ⟨hname, hattrs⟩ := List.forall_mem_cons.mp h
  have hpieces : StripsTo (r.render true)
      (r.name ++ "([" ++ Bytes.join " " r.attrs ++ "]" ++ ", " ++
        (Bytes.ofInt r.tuples ++ " " ++ "Tuples") ++ ")") :=
    (StripsTo.dye _ hname).append (.dye _ (by decide))
      |>.append (.dye _ (.join (by decide) hattrs)) |>.append (.dye _ (by decide))
      |>.append (.dye _ (by decide)) |>.append (stripsTo_renderCount (by decide) r.tuples)
      |>.append (.dye _ (by decide))
  -- The plain wording has the same pieces, but puts them together in another way.
  have hplain : (r.name ++ "([" ++ Bytes.join " " r.attrs ++ "]" ++ ", " ++
      (Bytes.ofInt r.tuples ++ " " ++ "Tuples") ++ ")" : Bytes) = r.render false := by
    simp only [render, List.append_assoc]
    rfl
  rwa [hplain] at hpieces

theorem stripsTo_renderAll {rs : List RelationInfo}
    (h : ∀ s ∈ (Datum.relations rs).strings, Unescaped s) :
    StripsTo (renderAll true rs) (renderAll false rs) := by
  refine ((StripsTo.literal "[").append (.join (by decide) fun r hr => ?_)).append (.literal "]")
  exact stripsTo_render fun s hs => h s (List.mem_flatMap.mpr ⟨r, hr, hs⟩)

end RelationInfo

namespace Event

theorem stripsTo_renderUnnamed {attrs : List Bytes} (h : ∀ s ∈ attrs, Text.Unescaped s)
    (n : Int) : StripsTo (renderUnnamed true attrs n) (renderUnnamed false attrs n) := by
  have hopened : StripsTo
      (Colour.blue.dye "Relation([" ++ Colour.cyan.dye (Bytes.join " " attrs) ++
        Colour.blue.dye "]")
      ("Relation([" ++ Bytes.join " " attrs ++ "]") :=
    (StripsTo.dye _ (by decide)).append (.dye _ (.join (by decide) h))
      |>.append (.dye _ (by decide))
  by_cases hn : 0 ≤ n
  case pos =>
    have hclosed : StripsTo
        (Colour.blue.dye ", " ++ RelationInfo.renderCount true "Tuples" n ++ Colour.blue.dye ")")
        (", " ++ (Bytes.ofInt n ++ " " ++ "Tuples") ++ ")") :=
      (StripsTo.dye _ (by decide)).append (RelationInfo.stripsTo_renderCount (by decide) n)
        |>.append (.dye _ (by decide))
    have hplain : ("Relation([" ++ Bytes.join " " attrs ++ "]" ++
        (", " ++ (Bytes.ofInt n ++ " " ++ "Tuples") ++ ")") : Bytes) =
          renderUnnamed false attrs n := by
      simp only [renderUnnamed, hn, List.append_assoc, if_true]
      rfl
    have hpieces := hopened.append hclosed
    rw [hplain] at hpieces
    simpa only [renderUnnamed, hn, if_true] using hpieces
  case neg =>
    have hplain : ("Relation([" ++ Bytes.join " " attrs ++ "]" ++ ")" : Bytes) =
        renderUnnamed false attrs n := by
      simp only [renderUnnamed, hn, List.append_assoc, if_false]
      rfl
    have hpieces := hopened.append (.dye .blue (by decide : Text.Unescaped ")"))
    rw [hplain] at hpieces
    simpa only [renderUnnamed, hn, if_true, if_false] using hpieces

theorem stripsTo_renderJoin {left right result : List Bytes}
    (hleft : ∀ s ∈ left, Text.Unescaped s) (hright : ∀ s ∈ right, Text.Unescaped s)
    (hresult : ∀ s ∈ result, Text.Unescaped s) (l r n : Int) :
    StripsTo (renderJoin true left l right r result n) (renderJoin false left l right r result n) :=
  (stripsTo_renderUnnamed hleft l).append (.paint _ (by decide))
    |>.append (stripsTo_renderUnnamed hright r) |>.append (.literal " → ")
    |>.append (stripsTo_renderUnnamed hresult n)

theorem stripsTo_renderCount (u : Measure) (n : Int) :
    StripsTo (renderCount true u n) (renderCount false u n) := by
  refine .paint _ (.append (.append (.grouped n) (by decide)) ?_)
  cases u <;> decide

theorem stripsTo_renderLatency (n : Int) :
    StripsTo (renderLatency true n) (renderLatency false n) := by
  refine .ite (fun _ => .paint _ ?_) fun _ => .paint _ ?_
  · exact .append (.append (by decide) (.ofInt _)) (by decide)
  · exact .append (.append (by decide) (.append (.append (.ofNat _) (by decide)) (.ofNat _)))
      (by decide)

theorem unescaped_shorten {s : Bytes} (h : Text.Unescaped s) : Text.Unescaped (shorten s) := by
  have hline : Text.Unescaped (Bytes.join " " (fields s)) := .join (by decide) h.fields
  unfold shorten
  dsimp only
  split
  · exact hline
  · refine .append (.encode fun hmem => ?_) (by decide)
    exact hline.not_mem_decode (List.mem_of_mem_take hmem)

theorem unescaped_trimLineFeeds {s : Bytes} (h : Text.Unescaped s) :
    Text.Unescaped (trimLineFeeds s) := by
  refine h.of_subset fun b hb => ?_
  exact List.mem_reverse.mp (List.dropWhile_subset _ (List.mem_reverse.mp hb))

theorem unescaped_renderData {e : Event} (h : e.Unescaped) :
    Text.Unescaped (renderData e.data) := by
  refine .append (.append (by decide) (.join (by decide) fun s hs => ?_)) (by decide)
  obtain ⟨⟨key, value⟩, hmem, rfl⟩ := List.mem_map.mp hs
  obtain ⟨hkey, hvalue⟩ := h.data ((List.mergeSort_perm _ _).mem_iff.mp hmem)
  exact .append (.append hkey (by decide)) (Datum.unescaped_amongData hvalue)

theorem stripsTo_text {e : Event} (h : e.Unescaped) (key : Bytes) :
    StripsTo (e.value key).asText (e.value key).asText :=
  .refl (Datum.unescaped_asText (h.value key))

theorem stripsTo_number (e : Event) (key : Bytes) :
    StripsTo (Bytes.ofInt (e.int key)) (Bytes.ofInt (e.int key)) :=
  .refl (.ofInt _)

theorem stripsTo_renderBody {e : Event} (h : e.Unescaped)
    (hrule : e.name = "rule/evaluated" → ∃ rule, e.get? "rule" = some (.text rule)) :
    StripsTo (renderBody true e) (renderBody false e) := by
  have heading (c : Colour) : StripsTo (paint true c "===") (paint false c "===") :=
    .paint c (by decide)
  unfold renderBody
  dsimp only
  refine .ite (fun _ => ?loaded) fun _ => .ite (fun _ => ?grouped) fun _ =>
    .ite (fun _ => ?begin) fun _ => .ite (fun _ => ?pass) fun _ =>
    .ite (fun _ => ?complete) fun _ => .ite (fun hname => ?rule) fun _ =>
    .ite (fun _ => ?join) fun _ => .ite (fun _ => ?query) fun _ =>
    .ite (fun _ => ?done) fun _ => ?other
  case loaded =>
    exact (heading _).append (.literal " Loaded ") |>.append (stripsTo_renderCount _ _)
      |>.append (.literal " with ") |>.append (stripsTo_renderCount _ _)
      |>.append (.literal " from ") |>.append (stripsTo_renderCount _ _)
  case grouped =>
    refine (StripsTo.literal "Grouped ").append (stripsTo_renderCount _ _)
      |>.append (.literal " into ") |>.append (stripsTo_renderCount _ _) |>.append (.literal " (")
      |>.append (stripsTo_number e _) |>.append (.literal " recursive)") |>.append (.refl ?_)
    split
    · rename_i plan hplan
      have hplain := unescaped_trimLineFeeds (h.get? hplan plan List.mem_cons_self)
      split
      · exact List.not_mem_nil
      · exact .append (by decide) hplain
    · exact List.not_mem_nil
  case begin =>
    refine (heading _).append (.literal " SCC ") |>.append (stripsTo_text h _)
      |>.append (.literal " starting (") |>.append ?_ |>.append (.literal ")")
    exact .refl (by split <;> decide)
  case pass =>
    exact (StripsTo.literal "SCC ").append (stripsTo_text h _) |>.append (.literal " pass ")
      |>.append (stripsTo_number e _) |>.append (.literal " added ")
      |>.append (stripsTo_renderCount _ _)
  case complete =>
    exact (StripsTo.literal "SCC ").append (stripsTo_text h _)
      |>.append (.literal " completed after ") |>.append (stripsTo_number e _)
      |>.append (.literal " passes with ") |>.append (stripsTo_renderCount _ _)
  case rule =>
    obtain ⟨rule, hfound⟩ := hrule hname
    have hvalue : e.value "rule" = .text rule := by rw [Event.value, hfound, Option.getD_some]
    have hplain : Text.Unescaped rule := h.get? hfound rule List.mem_cons_self
    have hshown : StripsTo
        (Colour.blue.dye "Rule(" ++ Colour.cyan.dye rule ++ Colour.blue.dye ")")
        ("Rule(" ++ rule ++ ")") :=
      (StripsTo.dye _ (by decide)).append (.dye _ hplain) |>.append (.dye _ (by decide))
    rw [if_pos rfl, if_neg Bool.false_ne_true, hvalue]
    exact hshown.append (.paint _ (by decide)) |>.append (stripsTo_renderCount _ _)
      |>.append (.literal " derived, ") |>.append (stripsTo_renderCount _ _)
      |>.append (.literal " new")
  case join =>
    refine .append (.ite (fun _ => ?_) fun _ => .refl List.not_mem_nil)
      (stripsTo_renderJoin (h.texts _) (h.texts _) (h.texts _) _ _ _)
    exact (StripsTo.paint _ (by decide)).append (.literal " ")
  case query =>
    exact (StripsTo.literal "Query ").append
        (.refl (unescaped_shorten (Datum.unescaped_asValue (h.value _))))
      |>.append (.literal "? → ") |>.append (stripsTo_renderCount _ _)
  case done =>
    refine .ite (fun _ => ?_) fun _ => ?_
    · refine (heading _).append (.literal " Evaluation done in ") |>.append (stripsTo_number e _)
        |>.append (.literal " passes with ") |>.append (stripsTo_renderCount _ _)
        |>.append (.literal " in ") |>.append (stripsTo_renderCount _ _) |>.append (.literal ".")
        |>.append ?_
      split
      · rename_i rs hrs
        refine .ite (fun _ => .refl List.not_mem_nil) fun _ => ?_
        exact (StripsTo.literal "\n").append (RelationInfo.stripsTo_renderAll (h.get? hrs))
      · exact .refl List.not_mem_nil
    · exact (StripsTo.paint _ (by decide)).append (.literal " Evaluation failed: ")
        |>.append (.refl (Datum.unescaped_asValue (h.value _)))
  case other =>
    exact (StripsTo.refl h.name).append (.literal " ") |>.append (.refl (unescaped_renderData h))

/-- Without its colour sequences an event is shown as it is shown without
colours. A rule has to be given as a text: any other value stands differently in
the two wordings. -/
theorem stripColours_render {e : Event} (h : e.Unescaped)
    (hrule : e.name = "rule/evaluated" → ∃ rule, e.get? "rule" = some (.text rule)) :
    stripColours (e.render true) = e.render false :=
  ((stripsTo_renderLatency e.latency).append (.literal " ")
    |>.append (stripsTo_renderBody h hrule)).eq

/-- A rule that looks like a colour sequence but for the escape byte, evaluated
in sixty-one milliseconds, with a number of an unexpected form. -/
def lookalike : Event where
  name := "rule/evaluated"
  data := [("tuples.added", .int (-1234)), ("rule", .text "p('[31m') :- q('[0m')."),
    ("tuples.derived", .other "%!s(float64=0.5)" "0.5" "0.5")]
  latency := 61000000

theorem stripColours_render_lookalike :
    lookalike.Unescaped ∧ lookalike.get? "rule" = some (.text "p('[31m') :- q('[0m').") ∧
      stripColours (lookalike.render true) = lookalike.render false := by
  have hplain : lookalike.Unescaped := by decide
  have hfound : lookalike.get? "rule" = some (.text "p('[31m') :- q('[0m').") := by decide
  exact ⟨hplain, hfound, stripColours_render hplain fun _ => ⟨_, hfound⟩⟩

end Event

end LeastModel
