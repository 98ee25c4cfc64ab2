import CodeAtlas.Proofs.Json.Lexing

/-!
# A written value is read back

The tokens of a value are read into the value, by induction on the value: between its tokens the
machine holds one open frame for every bracket that is not closed yet, and what those frames hold is
what the value was cut into.  Together with the reading of tokens this says what a document is read
as that was written from a value.
-/

namespace CodeAtlas.Json

namespace Reader

/-- Where the machine stands after more tokens. -/
def run (r : Reader) (ts : List Token) : Option Reader := ts.foldlM step r

/-- The machine reads a token and goes on. -/
lemma run_cons (r : Reader) (t : Token) (ts : List Token) :
    r.run (t :: ts) = (r.step t).bind fun r => r.run ts := by
  rw [run, List.foldlM_cons]
  rfl

/-- Where an item may stand, the first token of a value is read as elsewhere. -/
lemma run_firstItem (frames : List Frame) (v : Json) (ts : List Token) :
    run ⟨frames, .firstItem⟩ (tokensOf v ++ ts) = run ⟨frames, .value⟩ (tokensOf v ++ ts) := by
  cases v <;> simp [tokensOf, run_cons, step]

/-- A frame is opened where there is room. -/
lemma openFrame_of_room {frames : List Frame} (h : frames.length < maxDepth) (frame : Frame)
    (expect : Expect) : openFrame frames frame expect = some ⟨frame :: frames, expect⟩ := if_pos h

section

variable (items : List Json) (members : List (String × Json)) (name : String)
  (frames : List Frame) (v : Json)

/-- A value in an array is its next item. -/
lemma supply_array :
    supply (.array items :: frames) v = some ⟨.array (v :: items) :: frames, .more⟩ := rfl

/-- A value behind a name is the next member. -/
lemma supply_member :
    supply (.member members name :: frames) v =
      some ⟨.object ((name, v) :: members) :: frames, .more⟩ :=
  rfl

/-- A name awaits its colon. -/
lemma step_name : step ⟨.object members :: frames, .name⟩ (.scalar (.str name)) =
    some ⟨.member members name :: frames, .colon⟩ := rfl

/-- A colon stands between a name and its value. -/
lemma step_colon : step ⟨frames, .colon⟩ .colon = some ⟨frames, .value⟩ := rfl

/-- Behind a comma in an array stands an item. -/
lemma step_comma_array : step ⟨.array items :: frames, .more⟩ .comma =
    some ⟨.array items :: frames, .value⟩ := rfl

/-- Behind a comma in an object stands a name. -/
lemma step_comma_object : step ⟨.object members :: frames, .more⟩ .comma =
    some ⟨.object members :: frames, .name⟩ := rfl

/-- The end of an array. -/
lemma step_close_array : step ⟨.array items :: frames, .more⟩ .closeBracket =
    supply frames (.arr items.reverse) := rfl

/-- The end of an object. -/
lemma step_close_object : step ⟨.object members :: frames, .more⟩ .closeBrace =
    supply frames (.obj members.reverse) := rfl

end

mutual

/-- The tokens of a value put the value into the innermost frame. -/
lemma run_tokensOf : ∀ {room : Nat} (v : Json), Fits room v → ∀ frames : List Frame,
    frames.length + room ≤ maxDepth → ∀ ts : List Token,
    run ⟨frames, .value⟩ (tokensOf v ++ ts) = (supply frames v).bind fun r => r.run ts
  | _, .null, _, frames, _, ts => run_cons _ _ _
  | _, .bool b, _, frames, _, ts => run_cons _ _ _
  | _, .int n, _, frames, _, ts => run_cons _ _ _
  | _, .decimal literal, _, frames, _, ts => run_cons _ _ _
  | _, .str s, _, frames, _, ts => run_cons _ _ _
  | room, .arr [], hfits, frames, hroom, ts => by
    have hpos : 0 < room := hfits.1
    have hlength : frames.length < maxDepth := by omega
    simp [tokensOf, itemTokens, run_cons, step, value, close, openFrame_of_room hlength]
  | room, .arr (item :: items), hfits, frames, hroom, ts => by
    obtain ⟨hpos, hitems⟩ := hfits
    have hlength : frames.length < maxDepth := by omega
    have hopen : step ⟨frames, .value⟩ .openBracket = some ⟨.array [] :: frames, .firstItem⟩ :=
      openFrame_of_room hlength _ _
    have hfirst : run ⟨.array [] :: frames, .firstItem⟩
        ([Token.comma].intercalate (itemTokens (item :: items)) ++ .closeBracket :: ts) =
        run ⟨.array [] :: frames, .value⟩
          ([Token.comma].intercalate (itemTokens (item :: items)) ++ .closeBracket :: ts) := by
      cases items <;> simp [itemTokens, List.append_assoc, run_firstItem]
    rw [tokensOf, List.cons_append, List.cons_append, run_cons, hopen, Option.bind_some,
      List.append_assoc, List.singleton_append, hfirst,
      run_itemTokens (item :: items) (List.cons_ne_nil _ _) hitems [] frames (by omega)]
    rfl
  | room, .obj [], hfits, frames, hroom, ts => by
    have hpos : 0 < room := hfits.1
    have hlength : frames.length < maxDepth := by omega
    simp [tokensOf, memberTokens, run_cons, step, value, close, openFrame_of_room hlength]
  | room, .obj ((name, v) :: members), hfits, frames, hroom, ts => by
    obtain ⟨hpos, hmembers⟩ := hfits
    have hlength : frames.length < maxDepth := by omega
    have hopen : step ⟨frames, .value⟩ .openBrace = some ⟨.object [] :: frames, .firstName⟩ :=
      openFrame_of_room hlength _ _
    have hfirst : run ⟨.object [] :: frames, .firstName⟩
        ([Token.comma].intercalate (memberTokens ((name, v) :: members)) ++ .closeBrace :: ts) =
        run ⟨.object [] :: frames, .name⟩
          ([Token.comma].intercalate (memberTokens ((name, v) :: members)) ++
            .closeBrace :: ts) := by
      cases members <;> simp [memberTokens, run_cons, step]
    rw [tokensOf, List.cons_append, List.cons_append, run_cons, hopen, Option.bind_some,
      List.append_assoc, List.singleton_append, hfirst,
      run_memberTokens ((name, v) :: members) (List.cons_ne_nil _ _) hmembers [] frames (by omega)]
    rfl

/-- The tokens of items, up to the end of the array, put the array into the next frame. -/
lemma run_itemTokens : ∀ {room : Nat} (items : List Json), items ≠ [] → ItemsFit room items →
    ∀ (before : List Json) (frames : List Frame), frames.length + 1 + room ≤ maxDepth →
    ∀ ts : List Token, run ⟨.array before :: frames, .value⟩
        ([Token.comma].intercalate (itemTokens items) ++ .closeBracket :: ts) =
      (supply frames (.arr (before.reverse ++ items))).bind fun r => r.run ts
  | _, [], hne, _, _, _, _, _ => absurd rfl hne
  | _, [item], _, hfits, before, frames, hroom, ts => by
    rw [itemTokens, itemTokens, List.intercalate_singleton,
      run_tokensOf item hfits.1 (.array before :: frames) hroom, supply_array, Option.bind_some,
      run_cons, step_close_array, List.reverse_cons]
  | _, item :: item' :: items, _, hfits, before, frames, hroom, ts => by
    have htokens : [Token.comma].intercalate (itemTokens (item :: item' :: items)) ++
        .closeBracket :: ts = tokensOf item ++ .comma ::
          ([Token.comma].intercalate (itemTokens (item' :: items)) ++ .closeBracket :: ts) := by
      simp [itemTokens, List.append_assoc]
    rw [htokens, run_tokensOf item hfits.1 (.array before :: frames) hroom, supply_array,
      Option.bind_some, run_cons, step_comma_array, Option.bind_some,
      run_itemTokens (item' :: items) (List.cons_ne_nil _ _) hfits.2 (item :: before) frames hroom,
      List.reverse_cons, List.append_assoc, List.singleton_append]

/-- The tokens of members, up to the end of the object, put the object into the next frame. -/
lemma run_memberTokens : ∀ {room : Nat} (members : List (String × Json)), members ≠ [] →
    MembersFit room members → ∀ (before : List (String × Json)) (frames : List Frame),
    frames.length + 1 + room ≤ maxDepth → ∀ ts : List Token,
    run ⟨.object before :: frames, .name⟩
        ([Token.comma].intercalate (memberTokens members) ++ .closeBrace :: ts) =
      (supply frames (.obj (before.reverse ++ members))).bind fun r => r.run ts
  | _, [], hne, _, _, _, _, _ => absurd rfl hne
  | _, [(name, v)], _, hfits, before, frames, hroom, ts => by
    rw [memberTokens, memberTokens, List.intercalate_singleton, List.cons_append, List.cons_append,
      run_cons, step_name, Option.bind_some, run_cons, step_colon, Option.bind_some,
      run_tokensOf v hfits.1 (.member before name :: frames) hroom, supply_member, Option.bind_some,
      run_cons, step_close_object, List.reverse_cons]
  | _, (name, v) :: member :: members, _, hfits, before, frames, hroom, ts => by
    have htokens : [Token.comma].intercalate (memberTokens ((name, v) :: member :: members)) ++
        .closeBrace :: ts = .scalar (.str name) :: .colon :: (tokensOf v ++ .comma ::
          ([Token.comma].intercalate (memberTokens (member :: members)) ++ .closeBrace :: ts)) := by
      obtain ⟨name', v'⟩ := member
      simp [memberTokens, List.append_assoc]
    rw [htokens, run_cons, step_name, Option.bind_some, run_cons, step_colon, Option.bind_some,
      run_tokensOf v hfits.1 (.member before name :: frames) hroom, supply_member, Option.bind_some,
      run_cons, step_comma_object, Option.bind_some,
      run_memberTokens (member :: members) (List.cons_ne_nil _ _) hfits.2 ((name, v) :: before)
        frames hroom, List.reverse_cons, List.append_assoc, List.singleton_append]

end

end Reader

/-! ### What is read back fits where the value fits -/

mutual

/-- A value that is read back nests as deep as before. -/
lemma fits_of_reread? : ∀ {room : Nat} (j : Json), Fits room j → ∀ {v : Json},
    reread? j = some v → Fits room v
  | _, .null, _, v, hv => by
    obtain rfl := Option.some.inj hv
    trivial
  | _, .bool b, _, v, hv => by
    obtain rfl := Option.some.inj hv
    trivial
  | _, .str s, _, v, hv => by
    obtain rfl := Option.some.inj hv
    trivial
  | _, .int n, _, v, hv => by
    rcases wordValue?_cases hv with ⟨b, rfl⟩ | rfl | ⟨n, rfl⟩ | rfl
    · trivial
    · trivial
    · trivial
    · simpa [Fits] using toString_int n
  | _, .decimal literal, hfits, v, hv => by
    rcases wordValue?_cases hv with ⟨b, rfl⟩ | rfl | ⟨n, rfl⟩ | rfl
    · trivial
    · trivial
    · trivial
    · simpa [Fits] using hfits
  | _, .arr items, hfits, v, hv => by
    obtain ⟨vs, hvs, rfl⟩ := Option.map_eq_some_iff.mp hv
    exact ⟨hfits.1, itemsFit_of_rereadItems? items hfits.2 hvs⟩
  | _, .obj members, hfits, v, hv => by
    obtain ⟨vs, hvs, rfl⟩ := Option.map_eq_some_iff.mp hv
    exact ⟨hfits.1, membersFit_of_rereadMembers? members hfits.2 hvs⟩

/-- Items that are read back nest as deep as before. -/
lemma itemsFit_of_rereadItems? : ∀ {room : Nat} (items : List Json), ItemsFit room items →
    ∀ {vs : List Json}, rereadItems? items = some vs → ItemsFit room vs
  | _, [], _, vs, hvs => by
    obtain rfl := Option.some.inj hvs
    trivial
  | _, item :: items, hfits, vs, h => by
    obtain ⟨v, hv, hrest⟩ := Option.bind_eq_some_iff.mp h
    obtain ⟨vs, hvs, rfl⟩ := Option.map_eq_some_iff.mp hrest
    exact ⟨fits_of_reread? item hfits.1 hv, itemsFit_of_rereadItems? items hfits.2 hvs⟩

/-- Members that are read back nest as deep as before. -/
lemma membersFit_of_rereadMembers? : ∀ {room : Nat} (members : List (String × Json)),
    MembersFit room members → ∀ {vs : List (String × Json)},
    rereadMembers? members = some vs → MembersFit room vs
  | _, [], _, vs, hvs => by
    obtain rfl := Option.some.inj hvs
    trivial
  | _, (name, value) :: members, hfits, vs, h => by
    obtain ⟨v, hv, hrest⟩ := Option.bind_eq_some_iff.mp h
    obtain ⟨vs, hvs, rfl⟩ := Option.map_eq_some_iff.mp hrest
    exact ⟨fits_of_reread? value hfits.1 hv, membersFit_of_rereadMembers? members hfits.2 hvs⟩

end

/-- A document that was written from a value, in either layout, is read back as that value, up to
numbers that do not fit into 64 bits. -/
theorem parse?_renderAt (indented : Bool) {j : Json} (h : Fits maxDepth j) :
    parse? (renderAt indented 0 j) = reread? j := by
  rw [parse?, tokens?_renderAt indented h]
  cases hv : reread? j with
  | none => rfl
  | some v =>
    have hrun := Reader.run_tokensOf v (fits_of_reread? j h hv) [] (by simp) []
    rw [List.append_nil] at hrun
    rw [Option.map_some, Option.bind_some, ofTokens?, ← Reader.run, hrun]
    rfl

end CodeAtlas.Json
