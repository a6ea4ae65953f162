/-!
# English messages
-/

namespace FlowScript.English

/-- The titles and outlines of the steps view. -/
def steps : List (String × String) := [
  ("steps.variable", "prepare variable"),
  ("steps.variable_invalid", "Variable (invalid)"),
  ("steps.no_declarations", "No declarations"),
  ("steps.return", "return result"),
  ("steps.call", "run tool"),
  ("steps.important_call", "important operation"),
  ("steps.expression", "execute"),
  ("steps.condition", "condition"),
  ("steps.condition_invalid", "If (invalid)"),
  ("steps.missing_test", "Missing test or consequent"),
  ("steps.loop", "loop"),
  ("steps.loop_invalid", "Loop (invalid)"),
  ("steps.missing_loop_test", "Missing loop condition"),
  ("steps.error_handling", "error handling"),
  ("steps.try_invalid", "Try...Catch (invalid)"),
  ("steps.missing_handler", "Missing catch or finally clause"),
  ("steps.too_deep", "Nesting too deep"),
  ("steps.too_deep_message", "Statements nested deeper than \x7blimit\x7d levels are not shown"),
  ("steps.unknown", "Unknown: \x7bkind\x7d"),
  ("steps.then", "Then"),
  ("steps.else", "Else"),
  ("steps.loop_body", "Loop"),
  ("steps.try", "Try"),
  ("steps.catch", "Catch"),
  ("steps.catch_binding", "Catch (\x7bbinding\x7d)"),
  ("steps.finally", "Finally"),
  ("steps.then_else", "then: \x7bthen\x7d | else: \x7belse\x7d"),
  ("steps.no_processing", "(no processing)"),
  ("steps.more", "+\x7bcount\x7d more"),
  ("steps.brief_navigate", "go to page"),
  ("steps.brief_click", "click element"),
  ("steps.brief_type", "enter text"),
  ("steps.brief_read", "get text"),
  ("steps.brief_variable", "prepare variable \x7bname\x7d"),
  ("steps.brief_return", "return result")]

/-- The titles and descriptions of actions. -/
def actions : List (String × String) := [
  ("actions.return", "Return result"),
  ("actions.return_description", "Hand the workflow's result back to the caller"),
  ("actions.return_readable", "Return the execution result"),
  ("actions.control_flow", "Control flow"),
  ("actions.control_flow_description", "Branch or repeat processing"),
  ("actions.control_flow_readable", "Branch or repeat processing depending on conditions"),
  ("actions.if_statement", "Conditional branch"),
  ("actions.if_description", "Run different steps depending on \x7bcondition\x7d"),
  ("actions.for_loop", "Repeat"),
  ("actions.for_description", "Repeat processing a set number of times"),
  ("actions.while_loop", "Conditional repeat"),
  ("actions.while_description", "Repeat while \x7bcondition\x7d"),
  ("actions.for_of_loop", "Process each item"),
  ("actions.for_of_description", "Run the same steps for every item"),
  ("actions.check_condition", "Check the condition"),
  ("actions.execute_action", "Run the matching steps"),
  ("actions.navigation", "Page navigation"),
  ("actions.navigation_description", "Open or move to a web page"),
  ("actions.navigation_with_url", "Navigate to \x7burl\x7d"),
  ("actions.navigation_readable", "Navigate to a web page"),
  ("actions.interaction", "Page interaction"),
  ("actions.interaction_description", "Click, type or otherwise operate on the page"),
  ("actions.interaction_readable", "Operate on page elements"),
  ("actions.data_extraction", "Data extraction"),
  ("actions.data_extraction_description", "Read information from the page"),
  ("actions.data_extraction_readable", "Extract data from the page"),
  ("actions.computation", "Computation"),
  ("actions.computation_description", "Compute or transform values"),
  ("actions.computation_readable", "Perform a computation"),
  ("actions.prepare_variable", "Prepare variable \x60\x7bname\x7d\x60"),
  ("actions.prepare_description", "Set up \x60\x7bname\x7d\x60 for later steps")]

/-- Sentences about statements. -/
def explain : List (String × String) := [
  ("explain.create_page", "create page \x60\x7bname\x7d\x60"),
  ("explain.store_title", "store the page title in \x60\x7bname\x7d\x60"),
  ("explain.store_text", "store the extracted text in \x60\x7bname\x7d\x60"),
  ("explain.assign", "\x60\x7bname\x7d = \x7bvalue\x7d\x60"),
  ("explain.prepare", "prepare \x60\x7bname\x7d\x60"),
  ("explain.navigate_to", "navigate to \x60\x7burl\x7d\x60"),
  ("explain.navigate_given", "navigate to the given URL"),
  ("explain.click", "click an element"),
  ("explain.fill", "enter text"),
  ("explain.log", "output \x60console.log(\x7bargs\x7d)\x60"),
  ("explain.log_plain", "print information to the console"),
  ("explain.append", "append \x60\x7bvalue\x7d\x60 to \x60\x7barray\x7d\x60"),
  ("explain.append_plain", "add an element to an array"),
  ("explain.execute_code", "execute \x60\x7bcode\x7d\x60"),
  ("explain.execute", "execute an operation"),
  ("explain.return_value", "return \x60\x7bvalue\x7d\x60"),
  ("explain.return_plain", "return the result"),
  ("explain.check_condition", "check a condition"),
  ("explain.loop", "loop processing"),
  ("explain.error_handling", "error handling"),
  ("explain.if_then", "if \x7bcondition\x7d then:"),
  ("explain.else_if", "otherwise, check the next condition:"),
  ("explain.else", "otherwise:"),
  ("explain.repeat", "repeat:"),
  ("explain.repeat_fixed", "repeat a fixed number of times:"),
  ("explain.repeat_while", "while \x7bcondition\x7d repeat:"),
  ("explain.repeat_each", "for each element repeat:"),
  ("explain.repeat_each_property", "for each property repeat:"),
  ("explain.try", "operation that may fail:"),
  ("explain.catch", "if an error occurs (\x7bname\x7d):"),
  ("explain.catch_default_name", "error"),
  ("explain.finally", "always finally:")]

/-- Operators in words. -/
def operators : List (String × String) := [
  ("operators.equals", "equals"),
  ("operators.differs", "differs from"),
  ("operators.at_least", "at least"),
  ("operators.at_most", "at most"),
  ("operators.greater_than", "greater than"),
  ("operators.less_than", "less than"),
  ("operators.and", "and"),
  ("operators.or", "or")]

/-- Every key with its template. -/
def entries : List (String × String) := steps ++ actions ++ explain ++ operators

end FlowScript.English
