import Flowsheet.Template.Set

set_option autoImplicit false

namespace Flowsheet.Templates

def industryDefault : List String := [
  "\"\"\"$\x7bdescription\x7d\"\"\"",
  "",
  "# Constants",
  "NAME = $\x7bfullname\x7d",
  "$\x7bconstants\x7d",
  "",
  "# units",
  "UNITS = $\x7bunits\x7d",
  "",
  "",
  "class $\x7bname\x7d:",
  "    \"\"\"$\x7bdescription\x7d\"\"\"",
  "",
  "    def __init__($\x7bargs\x7d):",
  "        \"\"\"constructor\"\"\"",
  "        self.__validate_$\x7boutcome_name\x7d($\x7boutcome_name\x7d)",
  "        self.__$\x7boutcome_name\x7d = $\x7boutcome_name\x7d",
  "        $\x7bconstructor_method\x7d",
  "",
  "    def __validate_$\x7boutcome_name\x7d(self, $\x7boutcome_name\x7d) -> None:",
  "        if $\x7boutcome_name\x7d < $\x7bmin_units\x7d or $\x7boutcome_name\x7d > $\x7bmax_units\x7d:",
  "            raise ValueError(",
  "                \"The $\x7boutcome_name\x7d should be a value between $\x7bmin_units\x7d and $\x7bmax_units\x7d\"",
  "            )",
  "",
  "$\x7bprocess_methods\x7d",
  "",
  "$\x7bget_methods\x7d",
  "",
  "    def __values(self) -> dict:",
  "        prefix = f\"_\x7bself.__class__.__name__\x7d__\"",
  "        values = \x7b\x7d",
  "        for name, value in vars(self).items():",
  "            name = name.replace(prefix, \"\")",
  "            if name in UNITS:",
  "                values[name] = value",
  "        return values",
  "",
  "    def __str__(self) -> str:",
  "        lines = [\"$\x7bname\x7d industry\"]",
  "        for name, value in self.__values().items():",
  "            lines.append(f\"  \x7bname\x7d: \x7bvalue\x7d \x7bUNITS[name]\x7d\")",
  "        return \"\\n\".join(lines)",
  "",
  "    def csv(self, separator: str = \";\") -> None:",
  "        \"\"\"print the industry as CSV format\"\"\"",
  "        lines = [[], []]",
  "        for name, value in self.__values().items():",
  "            lines[0].append(name)",
  "            lines[1].append(str(value))",
  "            lines[0].append(name + \"_unit\")",
  "            lines[1].append(UNITS[name])",
  "        for line in lines:",
  "            print(separator.join(line))",
  "",
  "    def csv_header(self) -> list:",
  "        \"\"\"CSV header with units\"\"\"",
  "        return [f\"\x7bname\x7d (\x7bUNITS[name]\x7d)\" for name in self.__values()]",
  "",
  "    def csv_row(self) -> list:",
  "        \"\"\"CSV row with the computed values\"\"\"",
  "        return list(self.__values().values())"]

def processDefault : List String := [
  "    def __$\x7bname\x7d($\x7bargs\x7d) -> None:",
  "        \"\"\"$\x7bdescription\x7d\"\"\"",
  "        $\x7boperation\x7d"]

def getterDefault : List String := [
  "    def get_$\x7bname\x7d(self) -> float:",
  "        \"\"\"$\x7bdescription\x7d\"\"\"",
  "        return self.__$\x7bname\x7d"]

def defaultTexts : List (String × String) :=
  [(industryFile, industryDefault), (processFile, processDefault), (getterFile, getterDefault)].map
    fun (name, lines) => (name, String.join (lines.map (· ++ "\n")))

def defaultText (file : String) : String := (defaultTexts.lookup file).getD ""

def default (library : Template.Library) : Except Failure Templates :=
  let usual (file : String) := (file, Text.bytes (defaultText file))
  parse library (usual industryFile) (usual processFile) (usual getterFile)

end Flowsheet.Templates
