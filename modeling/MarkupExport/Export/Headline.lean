import MarkupExport.Export.Error
import MarkupExport.Profile.Basic

/-!
Headlines. A level is a signed number, and what it turns into is for the profile to say; a level
that the profile has nothing for stops the export.
-/

namespace MarkupExport.Profile

/-- The line of a headline. An outline compares levels as signed 64-bit numbers. -/
def titleLine (profile : Profile) (level : Int64) (title : String) :
    Except TranscodeError String :=
  match profile.headlines with
  | .outline commentThrough maxLevel =>
    if level ≤ commentThrough then .ok ("<!--  " ++ title ++ "  -->\n")
    else if level ≤ maxLevel.toInt64 then
      .ok (profile.delimiters.wrap ("h" ++ level.toInt.repr) [] title ++ "\n")
    else .error (.headlineLevelOutOfRange level maxLevel.toNat profile.name)
  | .marked markers emphasis underline =>
    match if level < 0 then none else markers[level.toInt.toNat]? with
    | some marker =>
      .ok (emphasis.render profile.delimiters
        (underline.render profile.delimiters (marker ++ title)) ++ "\n\n")
    | none => .error (.headlineLevelOutOfRange level (markers.length - 1) profile.name)

end MarkupExport.Profile
