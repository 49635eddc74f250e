import DocWire.Proofs.Wire.RoundTrip

namespace DocWire

namespace Datum

-- A datum of a type, as a program can build it. All items of a collection are of one type, and a
-- map, like a document, gives every name to one entry only.
inductive Of : Kind → Datum → Prop where
  | int32 (n : Int32) : Of (.scalar .int32) (.int32 n)
  | int64 (n : Int64) : Of (.scalar .int64) (.int64 n)
  | double (d : Double) : Of (.scalar .double) (.double d)
  | boolean (b : Bool) : Of (.scalar .boolean) (.boolean b)
  | string (s : String) : Of (.scalar .string) (.string s)
  | literal (s : String) : Of (.scalar .literal) (.literal s)
  | binary (b : Binary) : Of (.scalar .binary) (.binary b)
  | objectId (id : ObjectId) : Of (.scalar .objectId) (.objectId id)
  | dateTime (t : DateTime) : Of (.scalar .dateTime) (.dateTime t)
  | value {v : Value} (hv : v.Throughout Document.Distinct) : Of .value (.value v)
  | document {d : Document} (hd : d.WellFormed) : Of .document (.document d)
  | array {element : Kind} {items : List Datum} (hitems : ∀ x ∈ items, Of element x) :
      Of (.array element items.length) (.elements (.array element items.length) items)
  | list {element : Kind} {items : List Datum} (hitems : ∀ x ∈ items, Of element x) :
      Of (.list element) (.elements (.list element) items)
  | queue {element : Kind} {items : List Datum} (hitems : ∀ x ∈ items, Of element x) :
      Of (.queue element) (.elements (.queue element) items)
  | sortedMap {element : Kind} {fields : List (String × Datum)}
      (hnames : (fields.map (·.1)).Nodup) (hfields : ∀ field ∈ fields, Of element field.2) :
      Of (.sortedMap element) (.entries (.sortedMap element) fields)
  | hashedMap {element : Kind} {fields : List (String × Datum)}
      (hnames : (fields.map (·.1)).Nodup) (hfields : ∀ field ∈ fields, Of element field.2) :
      Of (.hashedMap element) (.entries (.hashedMap element) fields)

mutual

-- The value with the same contents, in which every collection is an array and every map a document
-- with the entries in the order in which the map shows them.
def dynamic (x : Datum) : Value :=
  match x with
  | .int32 n => .int32 n
  | .int64 n => .int64 n
  | .double d => .double d
  | .boolean b => .boolean b
  | .string s => .string s
  | .literal s => .string s
  | .binary b => .binary b
  | .objectId id => .objectId id
  | .dateTime t => .dateTime t
  | .value v => v
  | .document d => .document d
  | .elements _ items => .array (dynamicItems items)
  | .entries _ fields => .document ⟨dynamicFields fields⟩
  | .bare _ => .null
termination_by structural x

def dynamicItems (items : List Datum) : List Value :=
  match items with
  | [] => []
  | x :: rest => x.dynamic :: dynamicItems rest
termination_by structural items

def dynamicFields (fields : List (String × Datum)) : List (String × Value) :=
  match fields with
  | [] => []
  | (name, x) :: rest => (name, x.dynamic) :: dynamicFields rest
termination_by structural fields

end

theorem dynamicItems_eq (items : List Datum) : dynamicItems items = items.map dynamic := by
  induction items with
  | nil => rfl
  | cons x rest ih => rw [dynamicItems, ih, List.map_cons]

theorem dynamicFields_eq (fields : List (String × Datum)) :
    dynamicFields fields = fields.map fun field => (field.1, field.2.dynamic) := by
  induction fields with
  | nil => rfl
  | cons field rest ih => rw [dynamicFields, ih, List.map_cons]

theorem names_dynamicFields (fields : List (String × Datum)) :
    (dynamicFields fields).map (·.1) = fields.map (·.1) := by
  rw [dynamicFields_eq, List.map_map]
  rfl

theorem distinct_dynamicItems {items : List Datum}
    (h : ∀ x ∈ items, x.dynamic.Throughout Document.Distinct) :
    (Value.array (dynamicItems items)).Throughout Document.Distinct := by
  rw [Value.Throughout, itemsThroughout_iff, dynamicItems_eq]
  simpa using h

theorem wellFormed_dynamicFields {fields : List (String × Datum)}
    (hnames : (fields.map (·.1)).Nodup)
    (h : ∀ field ∈ fields, field.2.dynamic.Throughout Document.Distinct) :
    Document.WellFormed ⟨dynamicFields fields⟩ := by
  refine Document.wellFormed_iff.mpr ⟨?_, ?_⟩
  · rw [Document.Distinct, Document.keys, names_dynamicFields]
    exact hnames
  · rw [dynamicFields_eq]
    intro field hfield
    obtain ⟨other, hother, rfl⟩ := List.mem_map.mp hfield
    exact h other hother

-- No document in it has a name twice.
theorem Of.distinct {kind : Kind} {x : Datum} (h : Of kind x) :
    x.dynamic.Throughout Document.Distinct := by
  induction h with
  | value hv => exact hv
  | document hd => exact hd
  | array hitems ih => exact distinct_dynamicItems ih
  | list hitems ih => exact distinct_dynamicItems ih
  | queue hitems ih => exact distinct_dynamicItems ih
  | sortedMap hnames hfields ih => exact wellFormed_dynamicFields hnames ih
  | hashedMap hnames hfields ih => exact wellFormed_dynamicFields hnames ih
  | _ => trivial

end Datum

namespace Registry

open Datum

-- A datum asks for the same tokens as the value with its contents, and goes by the same answers.
def Alike (x : Datum) : Prop :=
  standard.encode x = standard.encode (.value x.dynamic)

theorem writeElements_alike {items : List Datum} (h : ∀ x ∈ items, Alike x) :
    standard.writeElements items = standard.writeItems (dynamicItems items) := by
  induction items with
  | nil => rfl
  | cons x rest ih =>
      have hx : standard.encode x = standard.encode (.value x.dynamic) := h x List.mem_cons_self
      have hrest := ih fun y hy => h y (List.mem_cons_of_mem x hy)
      change (standard.encode x >>= fun _ => standard.writeElements rest) = _
      rw [hx, hrest]
      rfl

theorem writeEntries_alike {fields : List (String × Datum)}
    (h : ∀ field ∈ fields, Alike field.2) :
    standard.writeEntries fields = standard.writeFields .any (dynamicFields fields) := by
  induction fields with
  | nil => rfl
  | cons field rest ih =>
      obtain ⟨name, x⟩ := field
      have hx : standard.encode x = standard.encode (.value x.dynamic) :=
        h (name, x) List.mem_cons_self
      have hrest := ih fun other hother => h other (List.mem_cons_of_mem _ hother)
      change (Writing.write (.name name) >>= fun _ => standard.encode x >>= fun _ =>
        standard.writeEntries rest) = _
      rw [hx, hrest]
      rfl

-- The two ends of an array are written by whichever codec the collection has.
theorem elements_alike {kind : Kind} {items : List Datum}
    (hkind : standard.resolve kind = .ok .array ∨ standard.resolve kind = .ok .sequence)
    (h : ∀ x ∈ items, Alike x) : Alike (.elements kind items) := by
  have hitems := writeElements_alike h
  have harray : standard.encode (.elements kind items) = .array (standard.writeElements items) := by
    unfold encode withCodec
    rcases hkind with hkind | hkind
    · rw [Datum.kind, hkind]
      rfl
    · rw [Datum.kind, hkind]
      rfl
  unfold Alike
  rw [harray, hitems]
  rfl

theorem entries_alike {kind : Kind} {fields : List (String × Datum)}
    (hkind : standard.resolve kind = .ok .map) (h : ∀ field ∈ fields, Alike field.2) :
    Alike (.entries kind fields) := by
  have hfields := writeEntries_alike h
  have hmap : standard.encode (.entries kind fields) =
      .document (standard.writeEntries fields) := by
    unfold encode withCodec
    rw [Datum.kind, hkind]
    rfl
  unfold Alike
  rw [hmap, hfields]
  rfl

-- By the type: what a collection or a map writes of its parts is what they write themselves.
theorem alike_of {kind : Kind} {x : Datum} (h : Of kind x) : Alike x := by
  induction h with
  | array hitems ih => exact elements_alike (.inl rfl) ih
  | list hitems ih => exact elements_alike (.inr rfl) ih
  | queue hitems ih => exact elements_alike (.inr rfl) ih
  | sortedMap hnames hfields ih => exact entries_alike rfl ih
  | hashedMap hnames hfields ih => exact entries_alike rfl ih
  | _ => rfl

-- The items that a datum shows are all that is written of it.
theorem alike_elements {kind : Kind} {x : Datum} {items : List Datum} (h : Of kind x)
    (hitems : x.elements? = some items) :
    (∀ y ∈ items, Alike y) ∧ x.dynamic = .array (dynamicItems items) := by
  cases h with
  | array hall =>
      cases hitems
      exact ⟨fun y hy => alike_of (hall y hy), rfl⟩
  | list hall =>
      cases hitems
      exact ⟨fun y hy => alike_of (hall y hy), rfl⟩
  | queue hall =>
      cases hitems
      exact ⟨fun y hy => alike_of (hall y hy), rfl⟩
  | _ => cases hitems

-- So are its entries, and those of a document are its fields.
theorem alike_entries {kind : Kind} {x : Datum} {fields : List (String × Datum)} (h : Of kind x)
    (hfields : x.entries? = some fields) :
    (∀ field ∈ fields, Alike field.2) ∧ x.dynamic = .document ⟨dynamicFields fields⟩ := by
  cases h with
  | sortedMap hnames hall =>
      cases hfields
      exact ⟨fun field hfield => alike_of (hall field hfield), rfl⟩
  | hashedMap hnames hall =>
      cases hfields
      exact ⟨fun field hfield => alike_of (hall field hfield), rfl⟩
  | @document d hd =>
      obtain ⟨own⟩ := d
      cases hfields
      refine ⟨fun field hfield => ?_, ?_⟩
      · obtain ⟨field, _, rfl⟩ := List.mem_map.mp hfield
        rfl
      · simp [dynamicFields_eq, dynamic, Function.comp_def]
  | _ => cases hfields

-- Fields with typed contents are written as the document that they stand for.
theorem entries_written {fields : List (String × Datum)}
    (htyped : ∀ field ∈ fields, ∃ kind, Of kind field.2) (bytes : ByteArray) :
    (Writing.document (standard.writeEntries fields)).runOn ByteArray.empty = (.ok (), bytes) ↔
      standard.toBytes ⟨dynamicFields fields⟩ = .ok bytes := by
  have halike : ∀ field ∈ fields, Alike field.2 := fun field hfield =>
    have ⟨_, hof⟩ := htyped field hfield
    alike_of hof
  have hencode : standard.encodeDocument ⟨dynamicFields fields⟩ =
      Writing.document (standard.writeFields .any (dynamicFields fields)) := rfl
  rw [writeEntries_alike halike, toBytes, hencode]
  rcases (Writing.document (standard.writeFields .any (dynamicFields fields))).runOn
    ByteArray.empty with ⟨outcome, written⟩
  cases outcome with
  | ok u => simp
  | error e => simp

-- They are read with dynamic contents.
theorem entries_read {fields : List (String × Datum)} (hnames : (fields.map (·.1)).Nodup)
    (htyped : ∀ field ∈ fields, ∃ kind, Of kind field.2) {bytes : ByteArray}
    (h : (Writing.document (standard.writeEntries fields)).runOn ByteArray.empty = (.ok (), bytes)) :
    ∃ r, standard.decodeDocument (Reader.ofBytes bytes) = .ok ⟨dynamicFields fields⟩ r ∧
      r.position = bytes.size := by
  have hwellFormed : Document.WellFormed ⟨dynamicFields fields⟩ :=
    wellFormed_dynamicFields hnames fun field hfield =>
      have ⟨_, hof⟩ := htyped field hfield
      hof.distinct
  exact ((Wire.toBytes_roundTrip _ hwellFormed).2 bytes ((entries_written htyped bytes).mp h)).2

-- What a datum contains decides what is written of it, and its type does not: a writer in any
-- state does the same with it as with the value that has its contents, and ends in the same way. A
-- field that holds it is read as that value. All collections of the same items are written alike,
-- and so are all maps and the document of the same entries.
theorem written_by_contents {kind : Kind} {x : Datum} (h : Of kind x) :
    (∀ w, (standard.encode x).run w = (standard.encode (.value x.dynamic)).run w) ∧
      (∀ before after name, ((before ++ (name, x) :: after).map (·.1)).Nodup →
        (∀ field ∈ before ++ after, ∃ kind, Of kind field.2) → ∀ bytes,
        (Writing.document (standard.writeEntries (before ++ (name, x) :: after))).runOn
          ByteArray.empty = (.ok (), bytes) →
        ∃ r, standard.decodeDocument (Reader.ofBytes bytes) =
            .ok ⟨dynamicFields before ++ (name, x.dynamic) :: dynamicFields after⟩ r ∧
          r.position = bytes.size) ∧
      (∀ items, x.elements? = some items → ∀ element w,
        (standard.encode (.elements (.array element items.length) items)).run w =
            (standard.encode x).run w ∧
          (standard.encode (.elements (.list element) items)).run w = (standard.encode x).run w ∧
          (standard.encode (.elements (.queue element) items)).run w = (standard.encode x).run w) ∧
      ∀ fields, x.entries? = some fields → ∀ element w,
        (standard.encode (.entries (.sortedMap element) fields)).run w =
            (standard.encode x).run w ∧
          (standard.encode (.entries (.hashedMap element) fields)).run w =
            (standard.encode x).run w ∧
          (standard.encode (.document ⟨dynamicFields fields⟩)).run w =
            (standard.encode x).run w := by
  have hx : standard.encode x = standard.encode (.value x.dynamic) := alike_of h
  refine ⟨fun w => by rw [hx], ?_, ?_, ?_⟩
  · intro before after name hnames htyped bytes hbytes
    have hall : ∀ field ∈ before ++ (name, x) :: after, ∃ kind, Of kind field.2 := by
      intro field hfield
      rcases List.mem_append.mp hfield with hbefore | hrest
      · exact htyped field (List.mem_append_left _ hbefore)
      · rcases List.mem_cons.mp hrest with rfl | hafter
        · exact ⟨kind, h⟩
        · exact htyped field (List.mem_append_right _ hafter)
    have hread := entries_read hnames hall hbytes
    simpa only [dynamicFields_eq, List.map_append, List.map_cons] using hread
  · intro items hitems element w
    obtain ⟨hall, hdynamic⟩ := alike_elements h hitems
    have hsame : ∀ form, standard.resolve form = .ok .array ∨ standard.resolve form = .ok .sequence →
        standard.encode (.elements form items) = standard.encode x := by
      intro form hform
      have halike : standard.encode (.elements form items) = _ := elements_alike hform hall
      rw [halike, hx, hdynamic]
      rfl
    rw [hsame _ (.inl rfl), hsame _ (.inr rfl), hsame _ (.inr rfl)]
    exact ⟨rfl, rfl, rfl⟩
  · intro fields hfields element w
    obtain ⟨hall, hdynamic⟩ := alike_entries h hfields
    have hsame : ∀ form, standard.resolve form = .ok .map →
        standard.encode (.entries form fields) = standard.encode x := by
      intro form hform
      have halike : standard.encode (.entries form fields) = _ := entries_alike hform hall
      rw [halike, hx, hdynamic]
      rfl
    rw [hsame _ rfl, hsame _ rfl, hx, hdynamic]
    exact ⟨rfl, rfl, rfl⟩

-- A queue of maps, one of them empty, under a name between two others.
theorem queue_of_maps_written :
    let counts : Datum := .entries (.sortedMap (.scalar .int32)) [("a", .int32 1), ("b", .int32 2)]
    let maps : List Datum := [counts, .entries (.sortedMap (.scalar .int32)) []]
    let queue : Datum := .elements (.queue (.sortedMap (.scalar .int32))) maps
    let contents : Value := .array [.document ⟨[("a", .int32 1), ("b", .int32 2)]⟩, .document ⟨[]⟩]
    Of (.queue (.sortedMap (.scalar .int32))) queue ∧ queue.dynamic = contents ∧
      (∀ w, (standard.encode queue).run w = (standard.encode (.value contents)).run w) ∧
      (∀ w, (standard.encode (.elements (.array (.sortedMap (.scalar .int32)) 2) maps)).run w =
        (standard.encode queue).run w) ∧
      ∃ bytes r, (Writing.document (standard.writeEntries
          [("x", .boolean true), ("y", queue), ("z", .literal "end")])).runOn ByteArray.empty =
            (.ok (), bytes) ∧
        standard.decodeDocument (Reader.ofBytes bytes) =
          .ok ⟨[("x", .boolean true), ("y", contents), ("z", .string "end")]⟩ r := by
  intro counts maps queue contents
  have hcounts : ∀ m ∈ maps, Of (.sortedMap (.scalar .int32)) m := by
    intro m hm
    rcases List.mem_cons.mp hm with rfl | hm
    · refine .sortedMap (by decide) fun field hfield => ?_
      rcases List.mem_cons.mp hfield with rfl | hfield
      · exact .int32 1
      · rw [List.mem_singleton.mp hfield]
        exact .int32 2
    · rw [List.mem_singleton.mp hm]
      exact .sortedMap (by decide) fun field hfield => nomatch hfield
  have hqueue : Of (.queue (.sortedMap (.scalar .int32))) queue := .queue hcounts
  obtain ⟨hsame, hfield, hforms, _⟩ := written_by_contents hqueue
  have htyped : ∀ field ∈ [("x", Datum.boolean true), ("y", queue), ("z", .literal "end")],
      ∃ kind, Of kind field.2 := by
    simp only [List.forall_mem_cons]
    exact ⟨⟨_, .boolean true⟩, ⟨_, hqueue⟩, ⟨_, .literal "end"⟩, by simp⟩
  have hothers : ∀ field ∈ [("x", Datum.boolean true)] ++ [("z", .literal "end")],
      ∃ kind, Of kind field.2 := by
    simp only [List.singleton_append, List.forall_mem_cons]
    exact ⟨⟨_, .boolean true⟩, ⟨_, .literal "end"⟩, by simp⟩
  have hnamed : Document.Throughout Document.Named
      ⟨[("x", .boolean true), ("y", contents), ("z", .string "end")]⟩ := by
    simp [contents, Document.Throughout, fieldsThroughout, Value.Throughout, itemsThroughout,
      Document.Named, Document.keys]
  have hwritten := (entries_written htyped _).mpr <| Wire.toBytes_eq_ok.mpr
    ⟨(Document.writable_iff _ 0 (Nat.zero_le _)).mpr ⟨hnamed, by decide, by decide⟩, rfl⟩
  obtain ⟨r, hread, _⟩ := hfield [("x", .boolean true)] [("z", .literal "end")] "y" (by decide)
    hothers _ hwritten
  exact ⟨hqueue, rfl, hsame, fun w => (hforms maps rfl _ w).1, _, r, hwritten, hread⟩

end Registry

end DocWire
